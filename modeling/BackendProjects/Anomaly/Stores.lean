import BackendProjects.Library.SortedSet
import BackendProjects.Workflow.Values
import Mathlib.Algebra.Order.Field.Rat
import Mathlib.Data.String.Basic

/-! The two stores of the anomaly platform: Postgres, where a session's rows are dropped by a rollback, and
Redis, where every write stays. -/
namespace BackendProjects.Anomaly
open Library Workflow

abbrev SourceId := String
abbrev PointId := String
abbrev RecordId := String

/-- The POSIX timestamp of a datetime. -/
abbrev Timestamp := Rat

structure MetricSource where
  id : SourceId
  name : String
  sourceType : String := "application"
  active : Bool := true

structure MetricDataPoint where
  id : PointId
  sourceId : SourceId
  metricName : String
  value : PyFloat
  unit : Option String
  tags : Option PyDict
  timestamp : Timestamp

structure AnomalyRecord where
  id : RecordId
  sourceId : SourceId
  metricName : String
  detectorType : String
  severity : String
  score : PyFloat
  expectedValue : Option PyFloat
  actualValue : PyFloat
  deviation : PyFloat
  reason : String
  status : String := "new"

structure AlertRule where
  id : String
  sourceId : Option SourceId
  metricName : Option String
  detectorType : String
  severityThreshold : String
  enabled : Bool := true
  cooldownSeconds : Int := 300

structure Tables where
  sources : List MetricSource
  points : List MetricDataPoint
  records : List AnomalyRecord

/-- What a member of a sliding window stands for: its value, and the data point that it was written for,
which is not part of its text. -/
structure Reading where
  value : PyFloat
  point : PointId
  deriving DecidableEq

abbrev SlidingWindow := SortedSet Timestamp String Reading
abbrev WindowMember := ScoredMember Timestamp String Reading

/-- The committed tables and those that the session sees, and Redis. An armed cooldown of a detector
goes with the record for which it was set. -/
structure Stores where
  committed : Tables
  session : Tables
  rules : List AlertRule
  windows : String → SlidingWindow
  cooldowns : String → Option (Option RecordId)

inductive Write where
  | source (row : MetricSource)
  | point (row : MetricDataPoint)
  | record (row : AnomalyRecord)
  | zadd (key : String) (member : WindowMember)
  | trim (key : String) (windowSize : Int)
  | armCooldown (key : String) (record : Option RecordId)

namespace Stores
variable (st : Stores)

def apply (st : Stores) : Write → Stores
  | .source row => { st with session := { st.session with sources := st.session.sources ++ [row] } }
  | .point row => { st with session := { st.session with points := st.session.points ++ [row] } }
  | .record row => { st with session := { st.session with records := st.session.records ++ [row] } }
  | .zadd key member => { st with windows := Function.update st.windows key ((st.windows key).zadd member) }
  | .trim key size => { st with windows := Function.update st.windows key ((st.windows key).trim size) }
  | .armCooldown key record => { st with cooldowns := Function.update st.cooldowns key (some record) }

def after (writes : List Write) : Stores := writes.foldl apply st

def rollback : Stores := { st with session := st.committed }

def source (name : String) : Option MetricSource := st.session.sources.find? (fun s => s.name = name)

def checkCooldown (key : String) : Bool := (st.cooldowns key).isSome

/-- The values of the last members; every member was written as JSON with a value. -/
def getSlidingWindow (key : String) (windowSize : Int) : List PyFloat :=
  ((st.windows key).zrange (-windowSize) (-1)).map (fun m => m.payload.value)

@[simp] theorem after_nil : st.after [] = st := rfl
@[simp] theorem after_cons (w : Write) (ws : List Write) : st.after (w :: ws) = (st.apply w).after ws := rfl

@[simp] theorem after_append (ws ws' : List Write) : st.after (ws ++ ws') = (st.after ws).after ws' :=
  List.foldl_append

@[simp] theorem apply_committed (w : Write) : (st.apply w).committed = st.committed := by
  cases w <;> rfl

@[simp] theorem after_committed (ws : List Write) : (st.after ws).committed = st.committed := by
  induction ws generalizing st with
  | nil => rfl
  | cons w ws ih => rw [after_cons, ih, apply_committed]

end Stores

/-- The writes of one part of a call after the other, each from the stores that those before it leave. -/
def sequentially {α : Type} (part : Stores → α → List Write) (st : Stores) : List α → List Write
  | [] => []
  | a :: rest => part st a ++ sequentially part (st.after (part st a)) rest

/-- What holds of no writes and of writes put together holds of a sequence of parts. -/
theorem sequentially_induction {α : Type} {part : Stores → α → List Write} (P : Stores → List Write → Prop)
    (nil : ∀ st, P st []) (append : ∀ st ws ws', P st ws → P (st.after ws) ws' → P st (ws ++ ws'))
    (as : List α) (h : ∀ st, ∀ a ∈ as, P st (part st a)) (st : Stores) : P st (sequentially part st as) := by
  induction as generalizing st with
  | nil => exact nil st
  | cons a as ih =>
    exact append st _ _ (h st a List.mem_cons_self) (ih (fun st b hb => h st b (List.mem_cons_of_mem _ hb)) _)

end BackendProjects.Anomaly
