import BackendProjects.Anomaly.Ingest

/-! The sliding window as a selection from its history: additions one after the other leave the
greatest of all members that were ever added, in whatever order they have come. -/
namespace BackendProjects.Anomaly
open Library
variable (P : Platform) (st : Stores) (key : String)

def Platform.addAll (adds : List WindowMember) : List Write := adds.flatMap (P.addToSlidingWindow key)

/-- They push their members to the window of the key, and touch no other window. -/
theorem windows_addAll (adds : List WindowMember) :
    (st.after (P.addAll key adds)).windows = Function.update st.windows key
      (adds.foldl (SortedSet.push P.detectionWindowSize) (st.windows key)) := by
  induction adds generalizing st with
  | nil => exact (Function.update_eq_self key st.windows).symm
  | cons add adds ih =>
    have hcons : P.addAll key (add :: adds) = P.addToSlidingWindow key add ++ P.addAll key adds := rfl
    have hpush : (st.after (P.addToSlidingWindow key add)).windows =
        Function.update st.windows key ((st.windows key).push P.detectionWindowSize add) := by
      simp [Platform.addToSlidingWindow, Stores.apply, SortedSet.push]
    rw [hcons, Stores.after_append, ih, hpush, Function.update_self, Function.update_idem,
      List.foldl_cons]

/-- The window is the selection of the greatest members of its history by timestamp and text: what
is read from it are their values in ascending order, and the order of the additions is lost. -/
theorem window_of_history {adds : List WindowMember} (hsize : 1 ≤ P.detectionWindowSize)
    (hempty : st.windows key = .empty) (distinct : (adds.map ScoredMember.text).Nodup) :
    ((st.after (P.addAll key adds)).windows key).members =
        SortedSet.greatest P.detectionWindowSize.toNat adds ∧
      (st.after (P.addAll key adds)).getSlidingWindow key P.detectionWindowSize =
        (SortedSet.greatest P.detectionWindowSize.toNat adds).map (fun m => m.payload.value) ∧
      ∀ adds' : List WindowMember, adds'.Perm adds →
        (st.after (P.addAll key adds')).windows = (st.after (P.addAll key adds)).windows := by
  have hmembers : ((st.after (P.addAll key adds)).windows key).members =
      SortedSet.greatest P.detectionWindowSize.toNat adds := by
    rw [windows_addAll, Function.update_self, hempty, SortedSet.members_foldl_push distinct]
  refine ⟨hmembers, ?_, fun adds' h => ?_⟩
  · have hfew : (((st.after (P.addAll key adds)).windows key).zcard : Int) ≤ P.detectionWindowSize := by
      rw [SortedSet.zcard, hmembers, SortedSet.length_greatest]
      omega
    rw [Stores.getSlidingWindow, SortedSet.zrange_all hfew, hmembers]
  · rw [windows_addAll, windows_addAll, hempty, SortedSet.foldl_push_perm h distinct]

private def pairPlatform : Platform where
  detectionWindowSize := 2
  reprFloat _ := ""
  detectors := []

private def noWindows : Stores where
  committed := ⟨[], [], []⟩
  session := ⟨[], [], []⟩
  rules := []
  windows _ := .empty
  cooldowns _ := none

private def lateAdds : List WindowMember :=
  [⟨100, "a", ⟨.finite 1, "p"⟩⟩, ⟨50, "b", ⟨.finite 2, "q"⟩⟩, ⟨70, "c", ⟨.finite 3, "r"⟩⟩]

theorem window_of_history_late :
    ((noWindows.after (pairPlatform.addAll "sw" lateAdds)).windows "sw").members =
        SortedSet.greatest 2 lateAdds ∧
      (noWindows.after (pairPlatform.addAll "sw" lateAdds)).getSlidingWindow "sw" 2 =
        [.finite 3, .finite 1] ∧
      (noWindows.after (pairPlatform.addAll "sw" lateAdds.reverse)).windows =
        (noWindows.after (pairPlatform.addAll "sw" lateAdds)).windows := by
  have distinct : (lateAdds.map ScoredMember.text).Nodup := by decide
  obtain ⟨hmembers, hvalues, hperm⟩ :=
    window_of_history pairPlatform noWindows "sw" (by decide) rfl distinct
  have hgreatest : (SortedSet.greatest 2 lateAdds).map (fun m => m.payload.value) =
      [.finite 3, .finite 1] := by decide +kernel
  exact ⟨hmembers, hvalues.trans hgreatest, hperm _ lateAdds.reverse_perm⟩

end BackendProjects.Anomaly
