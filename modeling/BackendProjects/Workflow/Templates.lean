import BackendProjects.Library.Regex
import BackendProjects.Workflow.Values

/-! The templates of HTTP tasks: placeholders in double braces, put in by one substitution. -/
namespace BackendProjects.Workflow
open Library

/-- The characters of Python's `\s`, which are those that `strip` takes off. -/
def isSpace (c : Char) : Bool :=
  let n := c.toNat
  (0x9 ≤ n ∧ n ≤ 0xD) ∨ (0x1C ≤ n ∧ n ≤ 0x20) ∨ n = 0x85 ∨ n = 0xA0 ∨ n = 0x1680 ∨
    (0x2000 ≤ n ∧ n ≤ 0x200A) ∨ n = 0x2028 ∨ n = 0x2029 ∨ n = 0x202F ∨ n = 0x205F ∨ n = 0x3000

def strip (text : List Char) : List Char :=
  ((text.dropWhile isSpace).reverse.dropWhile isSpace).reverse

def isOpen (c : Char) : Bool := c = '\x7b'

def isClose (c : Char) : Bool := c = '\x7d'

/-- `_VAR_PATTERN` up to its group, and from there on: `\{\{\s*([^}]+?)\s*\}\}` -/
def varEnd : Pattern Char := .seq (.greedy isSpace) (.seq (.one isClose) (.one isClose))

def varKey : Pattern Char :=
  .group (.seq (.one (fun c => !isClose c)) (.lazy (fun c => !isClose c)))

def varPattern : Pattern Char :=
  .seq (.one isOpen) (.seq (.one isOpen) (.seq (.greedy isSpace) (.seq varKey varEnd)))

section Source
variable (strOf : PyValue → String)

def repl (vars : PyDict) (m : Match Char) : List Char :=
  let key := strip (m.groups.headD [])
  let val := (vars.get? (.str (String.ofList key))).getD (.str "")
  (strOf val).toList

def renderTemplate (template : String) (vars : PyDict) : String :=
  String.ofList (varPattern.sub (repl strOf vars) template.toList)

end Source

namespace HttpTask
variable (strOf : PyValue → String) (config : PyDict) (inputData : Option PyDict)

/-- The address that `HttpTask.execute` requests. -/
def url : String :=
  renderTemplate strOf (strOf ((config.get? (.str "url")).getD (.str ""))) (inputData.getD [])

/-- Its content: only a string is a template. -/
def body : PyValue :=
  match (config.get? (.str "body")).getD .none with
  | .str text => .str (renderTemplate strOf text (inputData.getD []))
  | other => other

end HttpTask

/-! ### Segments of a template -/

structure Placeholder where
  before : String
  key : String
  after : String
  before_space : ∀ c ∈ before.toList, isSpace c = true
  key_ne : key ≠ ""
  key_open : '\x7d' ∉ key.toList
  key_head : ∀ c, key.toList.head? = some c → isSpace c = false
  key_last : ∀ c, key.toList.getLast? = some c → isSpace c = false
  after_space : ∀ c ∈ after.toList, isSpace c = true

inductive Segment where
  | literal (text : String) (h : '\x7b' ∉ text.toList)
  | placeholder (p : Placeholder)

def Segment.text : Segment → String
  | literal text _ => text
  | placeholder p => "\x7b\x7b" ++ p.before ++ p.key ++ p.after ++ "\x7d\x7d"

def Segment.rendered (strOf : PyValue → String) (vars : PyDict) : Segment → String
  | literal text _ => text
  | placeholder p => strOf ((vars.get? (.str p.key)).getD (.str ""))

/-! ### Matching a placeholder -/

/-- After the key: the spaces up to the braces. -/
theorem first_varEnd {after rest : List Char} (h : ∀ c ∈ after, isSpace c = true) :
    varEnd.first (after ++ '\x7d' :: '\x7d' :: rest) = some ⟨after ++ ['\x7d', '\x7d'], [], rest⟩ := by
  have hclose : (Pattern.seq (.one isClose) (.one isClose)).first ('\x7d' :: '\x7d' :: rest) =
      some ⟨['\x7d', '\x7d'], [], rest⟩ :=
    Pattern.first_seq_of_first (Pattern.first_one rfl) (Pattern.first_one rfl)
  refine (Pattern.first_seq_of_first (Pattern.first_greedy h ?_) hclose).trans rfl
  intro c hc
  obtain rfl := Option.some.inj hc
  decide

/-- Within the key there is no end, as its last character is neither a space nor a brace. -/
theorem first_varEnd_none {u s : List Char} (hclose : ∀ c ∈ u, isClose c = false) (hne : u ≠ [])
    (hlast : ∀ c, u.getLast? = some c → isSpace c = false) : varEnd.first (u ++ s) = none := by
  refine Pattern.first_seq_none (fun m hm => ?_)
  obtain ⟨happend, hall⟩ := mem_stretches (List.mem_reverse.mp hm)
  have hoverrun : ¬ ∀ c ∈ u, isSpace c = true := by
    intro hspaces
    have hspace := hspaces _ (List.getLast_mem hne)
    rw [hlast _ (List.getLast?_eq_some_getLast hne)] at hspace
    cases hspace
  have hinside : ∃ c w, u = m.taken ++ c :: w ∧ m.rest = c :: w ++ s := by
    rcases List.append_eq_append_iff.mp happend with ⟨w, hu, hrest⟩ | ⟨w, htaken, _⟩
    · cases w with
      | nil => exact absurd (fun c hc => hall c (by simpa [hu] using hc)) hoverrun
      | cons c w => exact ⟨c, w, hu, hrest⟩
    · exact absurd (fun c hc => hall c (by simp [htaken, hc])) hoverrun
  obtain ⟨c, w, hu, hrest⟩ := hinside
  rw [hrest]
  refine Pattern.first_seq_none_of_first ?_
  have hc := hclose c (by simp [hu])
  simp [Pattern.ways, hc]

private theorem dropWhile_of_head {p : Char → Bool} {l : List Char}
    (h : ∀ c, l.head? = some c → p c = false) : l.dropWhile p = l := by
  cases l with
  | nil => rfl
  | cons c l => simp [h c rfl]

namespace Placeholder
variable (p : Placeholder)

def chars : List Char := '\x7b' :: '\x7b' :: p.before.toList ++ p.key.toList ++ p.after.toList ++ ['\x7d', '\x7d']

private theorem key_close {c : Char} (h : c ∈ p.key.toList) : isClose c = false := by
  by_contra hclose
  have hc : c = '\x7d' := by simpa [isClose] using hclose
  exact p.key_open (hc ▸ h)

/-- The group catches the key, and only the key. -/
theorem first_key (rest : List Char) :
    (Pattern.seq varKey varEnd).first (p.key.toList ++ (p.after.toList ++ '\x7d' :: '\x7d' :: rest)) =
      some ⟨p.key.toList ++ (p.after.toList ++ ['\x7d', '\x7d']), [p.key.toList], rest⟩ := by
  have hnil : p.key.toList ≠ [] := by simpa using p.key_ne
  obtain ⟨c, t, hkey⟩ := List.exists_cons_of_ne_nil hnil
  have hopen {d : Char} (hd : d ∈ c :: t) : (!isClose d) = true := by
    rw [p.key_close (hkey ▸ hd)]
    rfl
  rw [hkey]
  refine Pattern.first_group_lazy (p := fun c => !isClose c) (hopen List.mem_cons_self)
    (fun d hd => hopen (List.mem_cons_of_mem _ hd)) (first_varEnd p.after_space) ?_
  intro t' u' ht hne
  refine first_varEnd_none (fun d hd => p.key_close ?_) hne (fun d hd => p.key_last d ?_)
  · rw [hkey, ht]
    simp [hd]
  · rw [hkey, ht, ← List.cons_append, List.getLast?_append, hd, Option.some_or]

/-- A placeholder is matched as a whole, wherever it stands. -/
theorem first_chars (rest : List Char) :
    varPattern.first (p.chars ++ rest) = some ⟨p.chars, [p.key.toList], rest⟩ := by
  have hnil : p.key.toList ≠ [] := by simpa using p.key_ne
  have hbefore : (Pattern.greedy isSpace).first (p.before.toList ++
      (p.key.toList ++ (p.after.toList ++ '\x7d' :: '\x7d' :: rest))) =
        some ⟨p.before.toList, [], p.key.toList ++ (p.after.toList ++ '\x7d' :: '\x7d' :: rest)⟩ := by
    refine Pattern.first_greedy p.before_space (fun c hc => p.key_head c ?_)
    obtain ⟨d, t, hkey⟩ := List.exists_cons_of_ne_nil hnil
    rw [hkey] at hc ⊢
    exact hc
  have hinner := Pattern.first_seq_of_first hbefore (p.first_key rest)
  have hopen : isOpen '\x7b' = true := by decide
  have hopened := Pattern.first_seq_of_first (Pattern.first_one hopen)
    (Pattern.first_seq_of_first (Pattern.first_one hopen) hinner)
  have htext : p.chars ++ rest = '\x7b' :: '\x7b' :: (p.before.toList ++
      (p.key.toList ++ (p.after.toList ++ '\x7d' :: '\x7d' :: rest))) := by
    simp [chars]
  rw [htext]
  refine hopened.trans ?_
  simp [Match.andThen, chars]

/-- `strip` leaves a key as it is. -/
theorem strip_key : strip p.key.toList = p.key.toList := by
  rw [strip, dropWhile_of_head p.key_head, dropWhile_of_head, List.reverse_reverse]
  intro c hc
  rw [List.head?_reverse] at hc
  exact p.key_last c hc

end Placeholder

/-! ### Rendering a template -/

section Rendering
variable (strOf : PyValue → String) (vars : PyDict)

/-- Away from an opening brace no match starts. -/
theorem first_of_not_open {c : Char} (h : c ≠ '\x7b') (s : List Char) :
    varPattern.first (c :: s) = none := by
  refine Pattern.first_seq_none_of_first ?_
  simp [Pattern.ways, isOpen, h]

private theorem Segment.toList_placeholder (p : Placeholder) : (Segment.placeholder p).text.toList = p.chars := by
  simp [text, Placeholder.chars]

/-- One segment is rendered, and the rest of the template after it. -/
theorem sub_segment (segment : Segment) (rest : List Char) :
    varPattern.sub (repl strOf vars) (segment.text.toList ++ rest) =
      (segment.rendered strOf vars).toList ++ varPattern.sub (repl strOf vars) rest := by
  cases segment with
  | literal text h =>
    refine Pattern.sub_append_of_none (fun c hc s => first_of_not_open ?_ s)
    rintro rfl
    exact h hc
  | placeholder p =>
    rw [Segment.toList_placeholder, Pattern.sub_of_first (p.first_chars rest) (by simp [Placeholder.chars])]
    simp [repl, p.strip_key, Segment.rendered]

private theorem sub_segments (segments : List Segment) :
    varPattern.sub (repl strOf vars) (String.join (segments.map Segment.text)).toList =
      (String.join (segments.map (Segment.rendered strOf vars))).toList := by
  induction segments with
  | nil => rfl
  | cons segment segments ih =>
    rw [List.map_cons, String.join_cons, String.toList_append, sub_segment, ih, List.map_cons,
      String.join_cons, String.toList_append]

/-- A template is rendered segment by segment: literals stay as they are, and a placeholder gives
the text of its variable, which is not looked at again. -/
theorem renderTemplate_segments (segments : List Segment) :
    renderTemplate strOf (String.join (segments.map Segment.text)) vars =
      String.join (segments.map (Segment.rendered strOf vars)) := by
  rw [renderTemplate, sub_segments, String.ofList_toList]

-- A third brace stays behind the placeholder, and the value is not expanded.
example : renderTemplate (fun | .str text => text | _ => "") "x\x7b\x7b a \x7d\x7d\x7d"
    [(.str "a", .str "\x7b\x7ba\x7d\x7d")] = "x\x7b\x7ba\x7d\x7d\x7d" := by decide +kernel

/-- A request whose address and content are made of segments sends them rendered. -/
theorem HttpTask.request_segments (hstr : ∀ text, strOf (.str text) = text) {config : PyDict}
    {urlSegments bodySegments : List Segment} (inputData : Option PyDict)
    (hurl : config.get? (.str "url") = some (.str (String.join (urlSegments.map Segment.text))))
    (hbody : config.get? (.str "body") = some (.str (String.join (bodySegments.map Segment.text)))) :
    HttpTask.url strOf config inputData =
        String.join (urlSegments.map (Segment.rendered strOf (inputData.getD []))) ∧
      HttpTask.body strOf config inputData =
        .str (String.join (bodySegments.map (Segment.rendered strOf (inputData.getD [])))) := by
  constructor
  · rw [HttpTask.url, hurl, Option.getD_some, hstr, renderTemplate, sub_segments, String.ofList_toList]
  · rw [HttpTask.body, hbody]
    simp only [Option.getD_some]
    rw [renderTemplate, sub_segments, String.ofList_toList]

end Rendering

end BackendProjects.Workflow
