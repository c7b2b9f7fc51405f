import Mathlib.Data.Int.Notation
import Mathlib.Data.List.Destutter
import Mathlib.Data.List.Sort
import Mathlib.Data.String.Basic
import Mathlib.Data.UInt
import Pandaria.Lib.Table

/-!
# The metrics registry

`observability/src/registry.rs`, for any number of calls of its methods at once.
A counter and a gauge are looked up, and written where they are if they are
there; otherwise the call lets go of the map and inserts what it has, in a step
of its own. A histogram is looked up and inserted under one lock. The export is
one reading of the map, with no call in between.

The numbers a histogram takes are floating-point numbers in the code and a
parameter here, with their addition and their order. A call that has let go of
the map is known by its place among those; the log of the calls that are done is
not in the code.
-/

namespace Pandaria.Observability

open Pandaria.Lib

/-- `f64`, as far as a histogram uses it. -/
structure Float64 (F : Type) where
  zero : F
  add : F → F → F
  le : F → F → Bool
  toString : F → String
  /-- `DEFAULT_BUCKETS`. -/
  defaultBuckets : List F

variable {F : Type} (f64 : Float64 F)

/-! ## Series -/

abbrev Labels := List (String × String)

structure MetricKey where
  name : String
  labels : String
deriving DecidableEq

/-- `format!("{}=\\"{}\\"", k, v)`. -/
def labelText (label : String × String) : String := label.1 ++ "=\"" ++ label.2 ++ "\""

def MetricKey.new (name : String) (labels : Labels) : MetricKey :=
  { name := name
    labels := ",".intercalate ((labels.map labelText).insertionSort (· ≤ ·)) }

structure HistogramInner (F : Type) where
  buckets : List F
  counts : List UInt64
  infCount : UInt64
  sum : F

namespace HistogramInner

def new (buckets : List F) : HistogramInner F :=
  { buckets := buckets
    counts := buckets.map fun _ => 0
    infCount := 0
    sum := f64.zero }

def record (h : HistogramInner F) (value : F) : HistogramInner F :=
  let h := { h with sum := f64.add h.sum value }
  match h.buckets.findIdx? fun upper => f64.le value upper with
  | some i => { h with counts := h.counts.modify i (· + 1) }
  | none => { h with infCount := h.infCount + 1 }

end HistogramInner

inductive MetricValue (F : Type) where
  | counter (n : UInt64)
  | gauge (value : Int)
  | histogram (h : HistogramInner F)

/-! ## Calls -/

/-- What a call has to write. -/
inductive Write (F : Type) where
  | counter (delta : UInt64)
  | gauge (value : Int)
  | duration (seconds : F)
deriving DecidableEq

namespace Write

/-- What is inserted when there is nothing. -/
def value : Write F → MetricValue F
  | counter delta => .counter delta
  | gauge value => .gauge value
  | duration seconds =>
      .histogram ((HistogramInner.new f64 f64.defaultBuckets).record f64 seconds)

/-- What becomes of what is there. One of another type stays as it is. -/
def apply : Write F → MetricValue F → MetricValue F
  | counter delta, .counter n => .counter (n + delta)
  | gauge value, .gauge _ => .gauge value
  | duration seconds, .histogram h => .histogram (h.record f64 seconds)
  | _, old => old

end Write

structure MetricCall (F : Type) where
  name : String
  labels : Labels
  write : Write F
deriving DecidableEq

def MetricCall.key (c : MetricCall F) : MetricKey := .new c.name c.labels

def MetricCall.written (c : MetricCall F) : Option (MetricValue F) → MetricValue F
  | some old => c.write.apply f64 old
  | none => c.write.value f64

structure MetricsRegistry (F : Type) where
  metrics : Table MetricKey (MetricValue F)
  /-- The calls that have found nothing and not yet inserted. -/
  pending : List (MetricCall F)
  /-- The calls that are done. -/
  done : List (MetricCall F)

inductive MetricsEvent (F : Type) where
  | increment (name : String) (labels : Labels) (delta : UInt64)
  | setGauge (name : String) (labels : Labels) (value : Int)
  | observe (name : String) (labels : Labels) (seconds : F)
  /-- A call that has found nothing inserts. -/
  | insert (i : Nat)

namespace MetricsRegistry

def new : MetricsRegistry F := ⟨.empty, [], []⟩

/-- The look, and what there is to write if it finds something. -/
def call (s : MetricsRegistry F) (c : MetricCall F) : MetricsRegistry F :=
  match s.metrics.get? c.key with
  | some old =>
      { s with
        metrics := s.metrics.upsert c.key fun _ => c.write.apply f64 old
        done := s.done ++ [c] }
  | none => { s with pending := s.pending ++ [c] }

def incrementCounter (s : MetricsRegistry F) (name : String) (labels : Labels) (delta : UInt64) :
    MetricsRegistry F := s.call f64 ⟨name, labels, .counter delta⟩

def setGauge (s : MetricsRegistry F) (name : String) (labels : Labels) (value : Int) :
    MetricsRegistry F := s.call f64 ⟨name, labels, .gauge value⟩

/-- The insert replaces whatever has come there meanwhile. -/
def insert (s : MetricsRegistry F) (i : Nat) : MetricsRegistry F :=
  match s.pending[i]? with
  | some c =>
      { metrics := s.metrics.upsert c.key fun _ => c.write.value f64
        pending := s.pending.eraseIdx i
        done := s.done ++ [c] }
  | none => s

/-- The look and the write in one. -/
def record (s : MetricsRegistry F) (c : MetricCall F) : MetricsRegistry F :=
  { s with
    metrics := s.metrics.upsert c.key (c.written f64)
    done := s.done ++ [c] }

def observeDuration (s : MetricsRegistry F) (name : String) (labels : Labels) (seconds : F) :
    MetricsRegistry F := s.record f64 ⟨name, labels, .duration seconds⟩

def step (s : MetricsRegistry F) : MetricsEvent F → MetricsRegistry F
  | .increment name labels delta => s.incrementCounter f64 name labels delta
  | .setGauge name labels value => s.setGauge f64 name labels value
  | .observe name labels seconds => s.observeDuration f64 name labels seconds
  | .insert i => s.insert f64 i

/-! ## The export -/

inductive ExportLine where
  | help (name kind : String)
  | type (name kind : String)
  /-- The series, as the text of its labels, and the value. -/
  | sample (name labels value : String)
deriving DecidableEq

def ExportLine.render : ExportLine → String
  | help name kind => "# HELP " ++ name ++ " Auto-generated " ++ kind ++ "\n"
  | type name kind => "# TYPE " ++ name ++ " " ++ kind ++ "\n"
  | sample name labels value => name ++ labels ++ " " ++ value ++ "\n"

def kind : MetricValue F → String
  | .counter _ => "counter"
  | .gauge _ => "gauge"
  | .histogram _ => "histogram"

def braces (labels : String) : String := "\x7b" ++ labels ++ "\x7d"

/-- The cumulative counts of a histogram, one for each bucket. -/
def cumulative (total : UInt64) : List UInt64 → List UInt64
  | [] => []
  | n :: counts => (total + n) :: cumulative (total + n) counts

def histogramLines (key : MetricKey) (h : HistogramInner F) : List ExportLine :=
  let total := h.counts.foldl (· + ·) 0 + h.infCount
  let bucket (le : String) (n : UInt64) :=
    ExportLine.sample (key.name ++ "_bucket") (braces (key.labels ++ ",le=\"" ++ le ++ "\""))
      n.toNat.repr
  List.zipWith (fun upper n => bucket (f64.toString upper) n) h.buckets (cumulative 0 h.counts) ++
    [bucket "+Inf" total,
      .sample (key.name ++ "_count") (braces key.labels) total.toNat.repr,
      .sample (key.name ++ "_sum") (braces key.labels) (f64.toString h.sum)]

/-- `labels_str`. -/
def labelsText (key : MetricKey) : String :=
  if key.labels = "" then "" else braces key.labels

def valueLines (key : MetricKey) : MetricValue F → List ExportLine
  | .counter n => [.sample key.name (labelsText key) n.toNat.repr]
  | .gauge value => [.sample key.name (labelsText key) (toString value)]
  | .histogram h => histogramLines f64 key h

/-- Of one name, the type of its first entry and then all its entries. -/
def nameLines (s : MetricsRegistry F) (name : String) : List ExportLine :=
  let entries := s.metrics.rows.filter fun row => row.1.name = name
  match entries with
  | [] => []
  | first :: _ =>
      [.help name (kind first.2), .type name (kind first.2)] ++
        entries.flatMap fun row => valueLines f64 row.1 row.2

def names (s : MetricsRegistry F) : List String :=
  ((s.metrics.rows.map fun row => row.1.name).insertionSort (· ≤ ·)).destutter (· ≠ ·)

def exportLines (s : MetricsRegistry F) : List ExportLine := s.names.flatMap (s.nameLines f64)

def export_ (s : MetricsRegistry F) : String := String.join ((s.exportLines f64).map ExportLine.render)

end MetricsRegistry

end Pandaria.Observability
