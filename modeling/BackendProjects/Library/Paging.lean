import Mathlib.Data.List.Nodup
import Mathlib.Data.List.Sort

/-! Pages of an ordered query. Rows with equal sort keys come in any order, and in another one for each page. -/
namespace BackendProjects.Library

structure Table (α : Type) (id : α → String) where
  rows : List α
  nodup : (rows.map id).Nodup

/-- `OFFSET offset LIMIT limit`, which are not taken when they are negative. -/
def offsetLimit {α : Type} (offset limit : Int) (rows : List α) : Option (List α) :=
  if offset < 0 ∨ limit < 0 then none else some ((rows.drop offset.toNat).take limit.toNat)

def page {α : Type} (rows : List α) (size k : Nat) : List α := (rows.drop (k * size)).take size

def pageCount (total size : Nat) : Nat := (total + size - 1) / size

section Order
variable {α κ : Type} [LinearOrder κ] (key : α → κ)

/-- What may be done for `ORDER BY key DESC`. -/
structure OrderBy where
  run : List α → List α
  perm : ∀ rows, (run rows).Perm rows
  sorted : ∀ rows, (run rows).Pairwise (fun a b => key b ≤ key a)

def newer (rows : List α) (a : α) : Nat := rows.countP (fun b => key a < key b)

def notOlder (rows : List α) (a : α) : Nat := rows.countP (fun b => key a ≤ key b)

/-- The first and the last of the rows with equal keys are on the same page. -/
def TiesTogether (rows : List α) (size : Nat) : Prop :=
  ∀ a ∈ rows, newer key rows a / size = (notOlder key rows a - 1) / size

/-- A listing that is called for one page after the other, up to the last one by its own total, returns every
record once. The items and the records are told by their identities. -/
def PagesThrough {β : Type} (list : Int → OrderBy key → Option (List β × Nat)) (identity : β → String)
    (size : Nat) (records : List String) : Prop :=
  ∀ order : Nat → OrderBy key, ∃ items : Nat → List β,
    (∀ k < pageCount records.length size, list (k + 1) (order k) = some (items k, records.length)) ∧
    (((List.range (pageCount records.length size)).flatMap items).map identity).Perm records

end Order

/-! ### Places and pages -/

section Places
variable {α : Type} {size : Nat}

private theorem getElem?_iff_append {rows : List α} {i : Nat} {a : α} :
    rows[i]? = some a ↔ ∃ before after, rows = before ++ a :: after ∧ before.length = i := by
  constructor
  · intro h
    obtain ⟨hi, rfl⟩ := List.getElem?_eq_some_iff.mp h
    refine ⟨rows.take i, rows.drop (i + 1), ?_, List.length_take_of_le hi.le⟩
    rw [List.getElem_cons_drop, List.take_append_drop]
  · rintro ⟨before, after, rfl, rfl⟩
    rw [List.getElem?_append_right (le_refl _), Nat.sub_self, List.getElem?_cons_zero]

private theorem mem_page (hsize : 0 < size) {rows : List α} {k : Nat} {a : α} :
    a ∈ page rows size k ↔ ∃ before after, rows = before ++ a :: after ∧ before.length / size = k := by
  have hplace : a ∈ page rows size k ↔ ∃ i, rows[i]? = some a ∧ i / size = k := by
    rw [page, List.mem_iff_getElem?]
    constructor
    · rintro ⟨j, hj⟩
      rw [List.getElem?_take] at hj
      split at hj
      · next hlt =>
        rw [List.getElem?_drop] at hj
        refine ⟨_, hj, ?_⟩
        rw [Nat.mul_comm, Nat.mul_add_div hsize, Nat.div_eq_of_lt hlt, Nat.add_zero]
      · cases hj
    · rintro ⟨i, hi, rfl⟩
      refine ⟨i % size, ?_⟩
      rw [List.getElem?_take, if_pos (Nat.mod_lt i hsize), List.getElem?_drop, Nat.mul_comm, Nat.div_add_mod]
      exact hi
  rw [hplace]
  constructor
  · rintro ⟨i, hi, rfl⟩
    obtain ⟨before, after, hrows, rfl⟩ := getElem?_iff_append.mp hi
    exact ⟨before, after, hrows, rfl⟩
  · rintro ⟨before, after, hrows, rfl⟩
    exact ⟨before.length, getElem?_iff_append.mpr ⟨before, after, hrows, rfl⟩, rfl⟩

theorem page_sublist (rows : List α) (size k : Nat) : (page rows size k).Sublist rows :=
  (List.take_sublist _ _).trans (List.drop_sublist _ _)

private theorem lt_pageCount_iff (hsize : 0 < size) {total k : Nat} :
    k < pageCount total size ↔ k * size < total := by
  unfold pageCount
  rw [Nat.lt_iff_add_one_le, Nat.le_div_iff_mul_le hsize, Nat.add_mul, Nat.one_mul]
  omega

theorem offsetLimit_page (rows : List α) (k : Nat) :
    offsetLimit ((k : Int) * size) size rows = some (page rows size k) := by
  have hoffset : ((k : Int) * size).toNat = k * size := by
    rw [← Int.natCast_mul, Int.toNat_natCast]
  have hnonneg : ¬ ((k : Int) * size < 0 ∨ (size : Int) < 0) := by
    rw [← Int.natCast_mul]
    omega
  rw [offsetLimit, if_neg hnonneg, hoffset, Int.toNat_natCast, page]

end Places

section Positions
variable {α κ : Type} [LinearOrder κ] {key : α → κ} {rows before after : List α} {a : α}

/-- The place of a row is among those of the rows with its key. -/
theorem place_of_row (hperm : (before ++ a :: after).Perm rows)
    (hsorted : (before ++ a :: after).Pairwise (fun a b => key b ≤ key a)) :
    newer key rows a ≤ before.length ∧ before.length < notOlder key rows a := by
  obtain ⟨-, hafter, hbefore⟩ := List.pairwise_append.mp hsorted
  have hnewer : newer key rows a = before.countP (fun b => key a < key b) := by
    have hnone : (a :: after).countP (fun b => key a < key b) = 0 := by
      rw [List.countP_eq_zero, List.forall_mem_cons]
      refine ⟨by simp, fun b hb => ?_⟩
      simpa using (List.pairwise_cons.mp hafter).1 b hb
    rw [newer, ← hperm.countP_eq, List.countP_append, hnone, Nat.add_zero]
  have hall : before.countP (fun b => key a ≤ key b) = before.length := by
    rw [List.countP_eq_length]
    exact fun b hb => decide_eq_true (hbefore b hb a List.mem_cons_self)
  have hnotOlder : before.length < notOlder key rows a := by
    rw [notOlder, ← hperm.countP_eq, List.countP_append, hall, List.countP_cons_of_pos (by simp)]
    omega
  exact ⟨hnewer ▸ List.countP_le_length, hnotOlder⟩

/-- Rows that stand in places of the same key have the same key. -/
theorem key_of_place (hperm : (before ++ a :: after).Perm rows)
    (hsorted : (before ++ a :: after).Pairwise (fun a b => key b ≤ key a)) {b : α}
    (hnewer : newer key rows b ≤ before.length) (hnotOlder : before.length < notOlder key rows b) :
    key a = key b := by
  obtain ⟨ha, ha'⟩ := place_of_row hperm hsorted
  rcases lt_trichotomy (key a) (key b) with hlt | heq | hgt
  · -- all rows up to the last one with the key of `b` would be newer than `a`
    have hle : notOlder key rows b ≤ newer key rows a :=
      List.countP_mono_left fun c _ hc => decide_eq_true (hlt.trans_le (of_decide_eq_true hc))
    omega
  · exact heq
  · have hle : notOlder key rows a ≤ newer key rows b :=
      List.countP_mono_left fun c _ hc => decide_eq_true (hgt.trans_le (of_decide_eq_true hc))
    omega

end Positions

/-! ### Orders -/

section Orders
variable {α κ : Type} [LinearOrder κ] {key : α → κ}

/-- The rows in the order of their keys, as they come where these are equal. -/
def OrderBy.stable (key : α → κ) : OrderBy key where
  run := List.insertionSort fun a b => key b ≤ key a
  perm := List.perm_insertionSort _
  sorted :=
    have : Std.Total fun a b => key b ≤ key a := ⟨fun a b => le_total (key b) (key a)⟩
    have : IsTrans α fun a b => key b ≤ key a := ⟨fun _ _ _ hab hbc => hbc.trans hab⟩
    List.pairwise_insertionSort _

open Classical in
noncomputable def OrderBy.answering (order : OrderBy key) {rows answer : List α} (hperm : answer.Perm rows)
    (hsorted : answer.Pairwise (fun a b => key b ≤ key a)) : OrderBy key where
  run rows' := if rows' = rows then answer else order.run rows'
  perm rows' := by
    split
    · next h => exact h ▸ hperm
    · exact order.perm rows'
  sorted rows' := by
    split
    · exact hsorted
    · exact order.sorted rows'

private theorem OrderBy.answering_run (order : OrderBy key) {rows answer : List α} (hperm : answer.Perm rows)
    (hsorted : answer.Pairwise (fun a b => key b ≤ key a)) :
    (order.answering hperm hsorted).run rows = answer :=
  if_pos rfl

end Orders

/-! ### All pages -/

section Pages
variable {α κ : Type} [LinearOrder κ] {key : α → κ} {rows : List α} {size : Nat}

def allPages (rows : List α) (size : Nat) (order : Nat → OrderBy key) : List α :=
  (List.range (pageCount rows.length size)).flatMap fun k => page ((order k).run rows) size k

private theorem page_of_row (hsize : 0 < size) (h : TiesTogether key rows size) (order : OrderBy key)
    {a : α} {k : Nat}
    (ha : a ∈ page (order.run rows) size k) : newer key rows a / size = k := by
  obtain ⟨before, after, hrun, rfl⟩ := (mem_page hsize).mp ha
  have hperm := order.perm rows
  have hsorted := order.sorted rows
  rw [hrun] at hperm hsorted
  obtain ⟨hnewer, hnotOlder⟩ := place_of_row hperm hsorted
  have hmem : a ∈ rows := hperm.mem_iff.mp (by simp)
  have hfirst : newer key rows a / size ≤ before.length / size := Nat.div_le_div_right hnewer
  have hlast : before.length / size ≤ (notOlder key rows a - 1) / size :=
    Nat.div_le_div_right (Nat.le_sub_one_of_lt hnotOlder)
  exact le_antisymm hfirst (hlast.trans (h a hmem).ge)

/-- Every order has every row on one of its pages. -/
theorem exists_page (hsize : 0 < size) (order : OrderBy key) {a : α} (ha : a ∈ rows) :
    ∃ k < pageCount rows.length size, a ∈ page (order.run rows) size k := by
  obtain ⟨before, after, hrun⟩ := List.append_of_mem ((order.perm rows).mem_iff.mpr ha)
  have hlength : before.length < rows.length := by
    rw [← (order.perm rows).length_eq, hrun, List.length_append, List.length_cons]
    omega
  have hpage := (mem_page hsize).mpr ⟨before, after, hrun, rfl⟩
  refine ⟨before.length / size, (lt_pageCount_iff hsize).mpr ?_, hpage⟩
  exact (Nat.div_mul_le_self _ _).trans_lt hlength

private theorem mem_allPages (order : Nat → OrderBy key) {a : α}
    (h : a ∈ allPages rows size order) : a ∈ rows := by
  obtain ⟨k, -, ha⟩ := List.mem_flatMap.mp h
  exact ((order k).perm rows).mem_iff.mp ((page_sublist ..).mem ha)

/-- Where ties stay together no row is lost or repeated, whatever the orders of the queries. -/
theorem allPages_perm (hnodup : rows.Nodup) (hsize : 0 < size) (h : TiesTogether key rows size)
    (order : Nat → OrderBy key) : (allPages rows size order).Perm rows := by
  have hpages : (allPages rows size order).Nodup := by
    refine List.nodup_flatMap.mpr ⟨fun k _ => ?_, List.pairwise_lt_range.imp fun {i j} hlt => ?_⟩
    · have hrun : ((order k).run rows).Nodup := ((order k).perm rows).nodup_iff.mpr hnodup
      exact hrun.sublist (page_sublist ..)
    · intro a hi hj
      rw [← page_of_row hsize h _ hi, ← page_of_row hsize h _ hj] at hlt
      exact hlt.false
  refine (List.perm_ext_iff_of_nodup hpages hnodup).mpr fun a => ⟨mem_allPages order, fun ha => ?_⟩
  obtain ⟨k, hk, hpage⟩ := exists_page hsize (order (newer key rows a / size)) ha
  obtain rfl := page_of_row hsize h _ hpage
  exact List.mem_flatMap.mpr ⟨_, List.mem_range.mpr hk, hpage⟩

/-- Rows with equal keys around the end of a page: one order has the first of them there, and for the next page
another one has it behind the second. -/
theorem exists_repeating (hsize : 0 < size) {before after : List α} {x y : α} {k : Nat}
    (hrun : (OrderBy.stable key).run rows = before ++ x :: y :: after)
    (hbefore : before.length + 1 = (k + 1) * size) (hkey : key x = key y) :
    ∃ order : Nat → OrderBy key, ¬ (allPages rows size order).Nodup := by
  have hstable := (OrderBy.stable key).perm rows
  rw [hrun] at hstable
  have hperm : (before ++ y :: x :: after).Perm rows :=
    (List.Perm.append_left before (List.Perm.swap x y after)).trans hstable
  have hsorted : (before ++ y :: x :: after).Pairwise (fun a b => key b ≤ key a) := by
    have hkeys : (before ++ y :: x :: after).map key = ((OrderBy.stable key).run rows).map key := by
      rw [hrun]
      simp [hkey]
    have hpairwise := (OrderBy.stable key).sorted rows
    rw [← List.pairwise_map (R := fun a b : κ => b ≤ a)] at hpairwise ⊢
    rw [hkeys]
    exact hpairwise
  refine ⟨fun j => if j = k + 1 then (OrderBy.stable key).answering hperm hsorted else OrderBy.stable key,
    fun hnodup => ?_⟩
  have hlength : (k + 1) * size < rows.length := by
    rw [← hstable.length_eq, List.length_append, List.length_cons, List.length_cons]
    omega
  have hcount : k + 1 < (List.range (pageCount rows.length size)).length := by
    rw [List.length_range]
    exact (lt_pageCount_iff hsize).mpr hlength
  have hdisjoint := List.pairwise_iff_getElem.mp (List.nodup_flatMap.mp hnodup).2 k (k + 1)
    (Nat.lt_of_succ_lt hcount) hcount k.lt_succ_self
  rw [List.getElem_range, List.getElem_range, Function.onFun_apply] at hdisjoint
  refine hdisjoint (a := x) ?_ ?_ <;> dsimp only
  · rw [if_neg (Nat.lt_succ_self k).ne, hrun, mem_page hsize]
    refine ⟨before, y :: after, rfl, Nat.div_eq_of_lt_le ?_ ?_⟩
    · rw [Nat.add_mul, Nat.one_mul] at hbefore
      omega
    · omega
  · rw [if_pos rfl, OrderBy.answering_run, mem_page hsize]
    refine ⟨before ++ [y], after, by simp, ?_⟩
    rw [List.length_append, List.length_singleton, hbefore, Nat.mul_div_cancel _ hsize]

private theorem adjacent_of_length {l : List α} {i : Nat} (h : i + 1 < l.length) :
    ∃ before x y after, l = before ++ x :: y :: after ∧ before.length = i := by
  refine ⟨l.take i, l[i], l[i + 1], l.drop (i + 2), ?_, List.length_take_of_le (by omega)⟩
  rw [List.getElem_cons_drop, List.getElem_cons_drop, List.take_append_drop]

/-- Where two orders cannot repeat a row, ties stay together. -/
theorem tiesTogether_of_nodup (hsize : 0 < size)
    (h : ∀ order : Nat → OrderBy key, (allPages rows size order).Nodup) : TiesTogether key rows size := by
  intro a ha
  by_contra hsplit
  let k := newer key rows a / size
  let l := (OrderBy.stable key).run rows
  have hl : l.Perm rows := (OrderBy.stable key).perm rows
  have hsorted : l.Pairwise fun a b => key b ≤ key a := (OrderBy.stable key).sorted rows
  have hself : newer key rows a < notOlder key rows a := by
    obtain ⟨before, after, hrun⟩ := List.append_of_mem (hl.mem_iff.mpr ha)
    obtain ⟨hnewer, hnotOlder⟩ := place_of_row (hrun ▸ hl) (hrun ▸ hsorted)
    exact hnewer.trans_lt hnotOlder
  -- the first place of the next page, which still belongs to the ties
  have hend : newer key rows a < (k + 1) * size := by
    rw [Nat.mul_comm]
    exact Nat.lt_mul_div_succ (newer key rows a) hsize
  have hnext : (k + 1) * size < notOlder key rows a := by
    have hle : newer key rows a / size ≤ (notOlder key rows a - 1) / size :=
      Nat.div_le_div_right (Nat.le_sub_one_of_lt hself)
    have hplace : (k + 1) * size ≤ notOlder key rows a - 1 :=
      (Nat.le_div_iff_mul_le hsize).mp (Nat.lt_of_le_of_ne hle hsplit)
    omega
  have hlength : notOlder key rows a ≤ l.length := hl.length_eq ▸ List.countP_le_length
  obtain ⟨before, x, y, after, hrun, hbefore⟩ :=
    adjacent_of_length (l := l) (i := (k + 1) * size - 1) (by omega)
  have hx : key x = key a := by
    refine key_of_place (hrun ▸ hl) (hrun ▸ hsorted) ?_ ?_ <;> omega
  have hy : key y = key a := by
    have hrun' : l = (before ++ [x]) ++ y :: after := by rw [hrun, List.append_cons]
    refine key_of_place (hrun' ▸ hl) (hrun' ▸ hsorted) ?_ ?_ <;>
      rw [List.length_append, List.length_singleton] <;> omega
  obtain ⟨order, hrepeats⟩ := exists_repeating hsize hrun (by omega : before.length + 1 = (k + 1) * size)
    (hx.trans hy.symm)
  exact hrepeats (h order)

end Pages

/-! ### Listings -/

section Listings
variable {α β κ : Type} [LinearOrder κ] {key : α → κ} {rows : List α} {size : Nat} {id : α → String}
  {identity : β → String} {response : α → Option β} {list : Int → OrderBy key → Option (List β × Nat)}

private theorem mapM_identity (hidentity : ∀ a b, response a = some b → identity b = id a) {items : List β}
    (h : rows.mapM response = some items) :
    items.map identity = rows.map id ∧ ∀ a ∈ rows, (response a).isSome = true := by
  induction rows generalizing items with
  | nil =>
    cases h
    exact ⟨rfl, List.forall_mem_nil _⟩
  | cons a rows ih =>
    rw [List.mapM_cons] at h
    obtain ⟨item, hitem, h⟩ := Option.bind_eq_some_iff.mp h
    obtain ⟨rest, hrest, h⟩ := Option.bind_eq_some_iff.mp h
    cases h
    obtain ⟨hids, hsome⟩ := ih hrest
    rw [List.map_cons, List.map_cons, hids, hidentity a item hitem]
    exact ⟨rfl, List.forall_mem_cons.mpr ⟨Option.isSome_of_eq_some hitem, hsome⟩⟩

private theorem mapM_isSome (h : ∀ a ∈ rows, (response a).isSome = true) :
    ∃ items, rows.mapM response = some items := by
  induction rows with
  | nil => exact ⟨[], rfl⟩
  | cons a rows ih =>
    obtain ⟨ha, hrows⟩ := List.forall_mem_cons.mp h
    obtain ⟨item, hitem⟩ := Option.isSome_iff_exists.mp ha
    obtain ⟨rest, hrest⟩ := ih hrows
    refine ⟨item :: rest, ?_⟩
    rw [List.mapM_cons, hitem, hrest]
    rfl

/-- A listing of the responses of ordered rows, page by page, returns each once exactly if all rows have a
response and those with equal keys are on one page. -/
theorem pagesThrough_iff (hnodup : (rows.map id).Nodup) (hsize : 0 < size)
    (hidentity : ∀ a b, response a = some b → identity b = id a)
    (hlist : ∀ (k : Nat) order, list (k + 1) order =
      ((page (order.run rows) size k).mapM response).map fun items => (items, rows.length)) :
    PagesThrough key list identity size (rows.map id) ↔
      TiesTogether key rows size ∧ ∀ a ∈ rows, (response a).isSome = true := by
  unfold PagesThrough
  rw [List.length_map]
  constructor
  · intro h
    have hitems {order : OrderBy key} {k : Nat} {items : List β}
        (hcall : list (k + 1) order = some (items, rows.length)) :
        (page (order.run rows) size k).mapM response = some items := by
      rw [hlist] at hcall
      obtain ⟨items', hmapM, heq⟩ := Option.map_eq_some_iff.mp hcall
      rw [hmapM, (Prod.mk.inj heq).1]
    constructor
    · refine tiesTogether_of_nodup hsize fun order => List.Nodup.of_map id ?_
      obtain ⟨items, hcalls, hperm⟩ := h order
      have hids : (allPages rows size order).map id =
          ((List.range (pageCount rows.length size)).flatMap items).map identity := by
        rw [allPages, List.map_flatMap, List.map_flatMap]
        refine List.flatMap_congr fun k hk => ?_
        exact (mapM_identity hidentity (hitems (hcalls k (List.mem_range.mp hk)))).1.symm
      rw [hids]
      exact hperm.nodup_iff.mpr hnodup
    · intro a ha
      obtain ⟨items, hcalls, -⟩ := h fun _ => OrderBy.stable key
      obtain ⟨k, hk, hpage⟩ := exists_page hsize (OrderBy.stable key) ha
      exact (mapM_identity hidentity (hitems (hcalls k hk))).2 a hpage
  · rintro ⟨hties, hsome⟩ order
    have hpages (k : Nat) : ∃ items, (page ((order k).run rows) size k).mapM response = some items :=
      mapM_isSome fun a ha => hsome a (((order k).perm rows).mem_iff.mp ((page_sublist ..).mem ha))
    choose items hitems using hpages
    refine ⟨items, fun k _ => by rw [hlist, hitems]; rfl, ?_⟩
    have hids : ((List.range (pageCount rows.length size)).flatMap items).map identity =
        (allPages rows size order).map id := by
      rw [allPages, List.map_flatMap, List.map_flatMap]
      exact List.flatMap_congr fun k _ => (mapM_identity hidentity (hitems k)).1
    rw [hids]
    exact (allPages_perm (List.Nodup.of_map id hnodup) hsize hties order).map id

end Listings

end BackendProjects.Library
