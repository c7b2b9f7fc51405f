import Pandaria.Lib.Caches
import Pandaria.Lib.Run
import Pandaria.Observability.Registry

/-!
# What the counters show

A counter shows the sum of what it was incremented by as long as every step is
like one that looks and writes at once, finds a counter where it finds anything,
and adds to no other series than its own. Under that condition the registry
holds, at every key it has been called with, the sum over all calls of that name
and those labels.
-/

namespace Pandaria.Observability

open Pandaria.Lib

variable {F : Type} {f64 : Float64 F}

/-! ## Keys -/

theorem MetricKey.new_congr {name : String} {labels labels' : Labels} (h : labels.Perm labels') :
    MetricKey.new name labels = .new name labels' := by
  have hsorted (ls : List String) : (ls.insertionSort (· ≤ ·)).Pairwise (· ≤ ·) :=
    List.pairwise_insertionSort (· ≤ ·) ls
  have hperm : ((labels.map labelText).insertionSort (· ≤ ·)).Perm
      ((labels'.map labelText).insertionSort (· ≤ ·)) :=
    ((List.perm_insertionSort _ _).trans (h.map labelText)).trans (List.perm_insertionSort _ _).symm
  rw [MetricKey.new, MetricKey.new, hperm.eq_of_pairwise' (hsorted _) (hsorted _)]

theorem MetricCall.key_congr {c d : MetricCall F} (hname : c.name = d.name)
    (hlabels : c.labels.Perm d.labels) : c.key = d.key := by
  rw [key, key, hname]
  exact MetricKey.new_congr hlabels

theorem MetricCall.name_eq {c d : MetricCall F} (h : c.key = d.key) : c.name = d.name :=
  congrArg MetricKey.name h

/-! ## Texts of labels

Where no name and no value has a quotation mark, the text has them only where
the code has put them, and the labels can be read off it. -/

def Plain (label : String × String) : Prop := '"' ∉ label.1.toList ∧ '"' ∉ label.2.toList

theorem toList_labelText (label : String × String) :
    (labelText label).toList = (label.1.toList ++ ['=']) ++ '"' :: (label.2.toList ++ ['"']) := by
  simp [labelText]

/-- Up to the first `q` two lists that are equal are equal. -/
theorem append_cons_inj {α : Type} {q : α} {xs ys us vs : List α} (hx : q ∉ xs) (hy : q ∉ ys)
    (h : xs ++ q :: us = ys ++ q :: vs) : xs = ys ∧ us = vs := by
  induction xs generalizing ys with
  | nil =>
      cases ys with
      | nil => exact ⟨rfl, (List.cons.inj h).2⟩
      | cons y ys => exact absurd (List.mem_cons.mpr (.inl (List.cons.inj h).1)) hy
  | cons x xs ih =>
      cases ys with
      | nil => exact absurd (List.mem_cons.mpr (.inl (List.cons.inj h).1.symm)) hx
      | cons y ys =>
          obtain ⟨hxy, htail⟩ := List.cons.inj h
          obtain ⟨htails, hrest⟩ := ih (fun hm => hx (List.mem_cons_of_mem _ hm))
            (fun hm => hy (List.mem_cons_of_mem _ hm)) htail
          exact ⟨by rw [hxy, htails], hrest⟩

/-- Two texts that start with a label start with the same, and go on alike. -/
theorem labelText_append_inj {label label' : String × String} (h : Plain label)
    (h' : Plain label') {rest rest' : List Char}
    (heq : (labelText label).toList ++ rest = (labelText label').toList ++ rest') :
    label = label' ∧ rest = rest' := by
  have hname {name : String} (hn : '"' ∉ name.toList) : '"' ∉ name.toList ++ ['='] := by
    simpa using hn
  have hsplit (label : String × String) (rest : List Char) : (labelText label).toList ++ rest =
      (label.1.toList ++ ['=']) ++ '"' :: (label.2.toList ++ '"' :: rest) := by
    rw [toList_labelText]
    simp
  rw [hsplit, hsplit] at heq
  obtain ⟨hn, heq⟩ := append_cons_inj (hname h.1) (hname h'.1) heq
  obtain ⟨hv, hrest⟩ := append_cons_inj h.2 h'.2 heq
  exact ⟨Prod.ext (String.toList_inj.mp (List.append_cancel_right hn)) (String.toList_inj.mp hv),
    hrest⟩

theorem flatMap_labelText_inj {ls ls' : Labels} (h : ∀ l ∈ ls, Plain l) (h' : ∀ l ∈ ls', Plain l)
    (heq : (ls.flatMap fun l => ',' :: (labelText l).toList) =
      ls'.flatMap fun l => ',' :: (labelText l).toList) : ls = ls' := by
  induction ls generalizing ls' with
  | nil =>
      cases ls' with
      | nil => rfl
      | cons l' ls' => cases heq
  | cons l ls ih =>
      cases ls' with
      | nil => cases heq
      | cons l' ls' =>
          rw [List.flatMap_cons, List.flatMap_cons, List.cons_append, List.cons_append] at heq
          rw [List.forall_mem_cons] at h h'
          obtain ⟨rfl, hrest⟩ := labelText_append_inj h.1 h'.1 (List.cons.inj heq).2
          rw [ih h.2 h'.2 hrest]

theorem toList_intercalate_cons (t : String) (ts : List String) :
    ',' :: (",".intercalate (t :: ts)).toList = (t :: ts).flatMap fun u => ',' :: u.toList := by
  induction ts generalizing t with
  | nil => simp
  | cons u us ih =>
      rw [String.intercalate_cons_cons, List.flatMap_cons, ← ih u]
      simp

theorem labels_eq_of_intercalate {ls ls' : Labels} (h : ∀ l ∈ ls, Plain l)
    (h' : ∀ l ∈ ls', Plain l)
    (heq : ",".intercalate (ls.map labelText) = ",".intercalate (ls'.map labelText)) : ls = ls' := by
  have hne (l : String × String) (ls : Labels) : ",".intercalate ((l :: ls).map labelText) ≠ "" := by
    intro he
    have hlist := toList_intercalate_cons (labelText l) (ls.map labelText)
    rw [← List.map_cons, he] at hlist
    simp [labelText] at hlist
  cases ls with
  | nil =>
      cases ls' with
      | nil => rfl
      | cons l' ls' => exact absurd heq.symm (hne l' ls')
  | cons l ls =>
      cases ls' with
      | nil => exact absurd heq (hne l ls)
      | cons l' ls' =>
          refine flatMap_labelText_inj h h' ?_
          have hlists := congrArg (fun text : String => ',' :: text.toList) heq
          rw [List.map_cons, List.map_cons] at hlists
          rwa [toList_intercalate_cons, toList_intercalate_cons, ← List.map_cons, ← List.map_cons,
            List.flatMap_map, List.flatMap_map] at hlists

/-- Labels without quotation marks share a key only when they are the same. -/
theorem perm_of_key_eq {name name' : String} {labels labels' : Labels}
    (h : ∀ l ∈ labels, Plain l) (h' : ∀ l ∈ labels', Plain l)
    (hkey : MetricKey.new name labels = .new name' labels') : labels.Perm labels' := by
  have hsort (ls : Labels) : (ls.map labelText).insertionSort (· ≤ ·) =
      (ls.insertionSort fun l l' => labelText l ≤ labelText l').map labelText :=
    (List.map_insertionSort _ (· ≤ ·) labelText ls fun _ _ _ _ => Iff.rfl).symm
  have htext := congrArg MetricKey.labels hkey
  rw [MetricKey.new, MetricKey.new] at htext
  dsimp only at htext
  rw [hsort, hsort] at htext
  have hperm (ls : Labels) : (ls.insertionSort fun l l' => labelText l ≤ labelText l').Perm ls :=
    List.perm_insertionSort _ ls
  have hsorted := labels_eq_of_intercalate (fun l hl => h l ((hperm labels).mem_iff.mp hl))
    (fun l hl => h' l ((hperm labels').mem_iff.mp hl)) htext
  exact (hperm labels).symm.trans (hsorted ▸ hperm labels')

/-! ## Sums -/

namespace Write

def isCounter : Write F → Bool
  | counter _ => true
  | gauge _ | duration _ => false

/-- What a counter gains by it. -/
def delta : Write F → Nat
  | counter delta => delta.toNat
  | gauge _ | duration _ => 0

/-- An increment finds a counter or nothing, and the sum has a place in it. -/
def Fits : Write F → Option (MetricValue F) → Prop
  | counter delta, some (.counter n) => n.toNat + delta.toNat < 2 ^ 64
  | counter _, some (.gauge _) | counter _, some (.histogram _) => False
  | _, _ => True

instance decidableFits : (w : Write F) → (old : Option (MetricValue F)) → Decidable (w.Fits old)
  | counter delta, some (.counter n) =>
      inferInstanceAs (Decidable (n.toNat + delta.toNat < 2 ^ 64))
  | counter _, some (.gauge _) | counter _, some (.histogram _) => inferInstanceAs (Decidable False)
  | counter _, none | gauge _, _ | duration _, _ => inferInstanceAs (Decidable True)

end Write

/-- The number in a counter. -/
def counted : Option (MetricValue F) → Nat
  | some (.counter n) => n.toNat
  | _ => 0

theorem counted_written (c : MetricCall F) {old : Option (MetricValue F)} (h : c.write.Fits old) :
    counted (some (c.written f64 old)) = counted old + c.write.delta := by
  obtain ⟨name, labels, w⟩ := c
  cases w with
  | counter delta =>
      cases old with
      | none => exact (Nat.zero_add _).symm
      | some value =>
          cases value with
          | counter n =>
              have hlt : n.toNat + delta.toNat < 2 ^ 64 := h
              show (n + delta).toNat = n.toNat + delta.toNat
              rw [UInt64.toNat_add, Nat.mod_eq_of_lt hlt]
          | gauge _ => cases h
          | histogram _ => cases h
  | gauge _ | duration _ =>
      cases old with
      | none => rfl
      | some value => cases value <;> rfl

/-- A counter remains one, and an increment leaves one. -/
theorem written_counter (c : MetricCall F) {old : Option (MetricValue F)} (h : c.write.Fits old)
    (hold : c.write.isCounter = true ∨ ∃ n, old = some (.counter n)) :
    ∃ n, c.written f64 old = .counter n := by
  obtain ⟨name, labels, w⟩ := c
  rcases hold with hw | ⟨n, rfl⟩
  · cases w with
    | counter delta =>
        cases old with
        | none => exact ⟨delta, rfl⟩
        | some value =>
            cases value with
            | counter n => exact ⟨n + delta, rfl⟩
            | gauge _ => cases h
            | histogram _ => cases h
    | gauge _ => cases hw
    | duration _ => cases hw
  · cases w with
    | counter delta => exact ⟨n + delta, rfl⟩
    | gauge _ => exact ⟨n, rfl⟩
    | duration _ => exact ⟨n, rfl⟩

namespace MetricsRegistry

variable {s : MetricsRegistry F} {c d : MetricCall F}

/-- What the calls of this name and these labels, in whatever order, add up to. -/
def total (s : MetricsRegistry F) (name : String) (labels : Labels) : Nat :=
  ((s.done.filter fun c => c.name = name ∧ c.labels.Perm labels).map fun c => c.write.delta).sum

theorem total_congr {name : String} {labels labels' : Labels} (h : labels.Perm labels') :
    s.total name labels = s.total name labels' := by
  have hiff (c : MetricCall F) : (decide (c.name = name ∧ c.labels.Perm labels)) =
      decide (c.name = name ∧ c.labels.Perm labels') :=
    decide_eq_decide.mpr (and_congr_right fun _ => ⟨fun hc => hc.trans h, fun hc => hc.trans h.symm⟩)
  rw [total, total, funext hiff]

theorem total_record (name : String) (labels : Labels) :
    (s.record f64 c).total name labels =
      s.total name labels + if c.name = name ∧ c.labels.Perm labels then c.write.delta else 0 := by
  rw [total, total, record, List.filter_append, List.map_append, List.sum_append]
  by_cases h : c.name = name ∧ c.labels.Perm labels
  · rw [List.filter_cons_of_pos (by simpa using h), if_pos h]
    exact congrArg _ (Nat.add_zero _)
  · rw [List.filter_cons_of_neg (by simpa using h), if_neg h]
    rfl

/-! ## What the map holds -/

/-- The call adds to no other series than its own, and its write fits what is there. -/
def Fits (s : MetricsRegistry F) (c : MetricCall F) : Prop :=
  (∀ d ∈ s.done, d.key = c.key → d.labels.Perm c.labels) ∧ c.write.Fits (s.metrics.get? c.key)

instance (s : MetricsRegistry F) (c : MetricCall F) : Decidable (s.Fits c) :=
  inferInstanceAs (Decidable (_ ∧ _))

/-- Labels without quotation marks leave only the write to look at. -/
theorem fits_of_plain (hdone : ∀ d ∈ s.done, ∀ l ∈ d.labels, Plain l)
    (hc : ∀ l ∈ c.labels, Plain l) (hwrite : c.write.Fits (s.metrics.get? c.key)) : s.Fits c :=
  ⟨fun d hd hkey => perm_of_key_eq (hdone d hd) hc hkey, hwrite⟩

structure Kept (s : MetricsRegistry F) : Prop where
  held : ∀ key, (s.metrics.get? key).isSome = true ↔ ∃ c ∈ s.done, c.key = key
  apart : ∀ c ∈ s.done, ∀ d ∈ s.done, c.key = d.key → c.labels.Perm d.labels
  counter : ∀ c ∈ s.done, c.write.isCounter = true → ∃ n, s.metrics.get? c.key = some (.counter n)
  sum : ∀ c ∈ s.done, s.total c.name c.labels = counted (s.metrics.get? c.key)

theorem kept_new : Kept (new : MetricsRegistry F) where
  held _ := by
    constructor
    · intro h
      cases h
    · rintro ⟨_, hc, -⟩
      cases hc
  apart _ hc := by cases hc
  counter _ hc := by cases hc
  sum _ hc := by cases hc

/-- Before it is done, a call finds the sum of those before it. -/
theorem Kept.total_eq (h : Kept s) (hc : ∀ d ∈ s.done, d.key = c.key → d.labels.Perm c.labels) :
    s.total c.name c.labels = counted (s.metrics.get? c.key) := by
  cases hget : s.metrics.get? c.key with
  | none =>
      have hnone : s.done.filter (fun d => d.name = c.name ∧ d.labels.Perm c.labels) = [] := by
        refine List.filter_eq_nil_iff.mpr fun d hd => ?_
        rw [decide_eq_true_iff]
        rintro ⟨hname, hlabels⟩
        have hsome := (h.held c.key).mpr ⟨d, hd, MetricCall.key_congr hname hlabels⟩
        rw [hget] at hsome
        cases hsome
      rw [total, hnone]
      rfl
  | some value =>
      obtain ⟨d, hd, hkey⟩ := (h.held c.key).mp (by rw [hget]; rfl)
      have hsum := h.sum d hd
      rw [hkey, MetricCall.name_eq hkey, total_congr (hc d hd hkey), hget] at hsum
      exact hsum

theorem get?_record (key : MetricKey) : (s.record f64 c).metrics.get? key =
    if key = c.key then some (c.written f64 (s.metrics.get? c.key)) else s.metrics.get? key :=
  Table.get?_upsert ..

theorem mem_record : d ∈ (s.record f64 c).done ↔ d ∈ s.done ∨ d = c := by
  rw [record, List.mem_append, List.mem_singleton]

/-- The calls of the key of `c`, with `c`, have its labels. -/
theorem perm_of_mem_record (hfits : s.Fits c) (hd : d ∈ (s.record f64 c).done)
    (hkey : d.key = c.key) : d.labels.Perm c.labels := by
  rcases mem_record.mp hd with hd | rfl
  · exact hfits.1 d hd hkey
  · exact List.Perm.refl _

theorem kept_record (h : Kept s) (hfits : s.Fits c) : Kept (s.record f64 c) where
  held key := by
    rw [get?_record]
    split
    · next hkey =>
        exact ⟨fun _ => ⟨c, mem_record.mpr (.inr rfl), hkey.symm⟩, fun _ => rfl⟩
    · next hkey =>
        rw [h.held]
        constructor
        · rintro ⟨d, hd, hdkey⟩
          exact ⟨d, mem_record.mpr (.inl hd), hdkey⟩
        · rintro ⟨d, hd, hdkey⟩
          rcases mem_record.mp hd with hd | rfl
          · exact ⟨d, hd, hdkey⟩
          · exact absurd hdkey.symm hkey
  apart d hd d' hd' hkey := by
    by_cases hc : d.key = c.key
    · exact (perm_of_mem_record hfits hd hc).trans
        (perm_of_mem_record hfits hd' (hkey.symm.trans hc)).symm
    · rcases mem_record.mp hd with hd | rfl
      · rcases mem_record.mp hd' with hd' | rfl
        · exact h.apart d hd d' hd' hkey
        · exact absurd hkey hc
      · exact absurd rfl hc
  counter d hd hw := by
    rw [get?_record]
    split
    · next hkey =>
        have hold : c.write.isCounter = true ∨ ∃ n, s.metrics.get? c.key = some (.counter n) := by
          rcases mem_record.mp hd with hd | rfl
          · exact .inr (hkey ▸ h.counter d hd hw)
          · exact .inl hw
        have hwritten : ∃ n, c.written f64 (s.metrics.get? c.key) = .counter n :=
          written_counter c hfits.2 hold
        exact hwritten.imp fun n hn => congrArg some hn
    · next hkey =>
        rcases mem_record.mp hd with hd | rfl
        · exact h.counter d hd hw
        · exact absurd rfl hkey
  sum d hd := by
    rw [get?_record]
    split
    · next hkey =>
        have hperm := perm_of_mem_record hfits hd hkey
        rw [MetricCall.name_eq hkey, total_congr hperm, total_record,
          if_pos ⟨rfl, List.Perm.refl _⟩, counted_written c hfits.2, h.total_eq hfits.1]
    · next hkey =>
        have hother : ¬ (c.name = d.name ∧ c.labels.Perm d.labels) :=
          fun hc => hkey (MetricCall.key_congr hc.1 hc.2).symm
        rw [total_record, if_neg hother, Nat.add_zero]
        rcases mem_record.mp hd with hd | rfl
        · exact h.sum d hd
        · exact absurd rfl hkey

/-! ## Steps -/

/-- A call fits, and one that inserts finds its place as it left it. -/
def Ok (s : MetricsRegistry F) : MetricsEvent F → Prop
  | .increment name labels delta => s.Fits ⟨name, labels, .counter delta⟩
  | .setGauge name labels value => s.Fits ⟨name, labels, .gauge value⟩
  | .observe name labels seconds => s.Fits ⟨name, labels, .duration seconds⟩
  | .insert i => (s.pending[i]?.all fun c => (s.metrics.get? c.key).isNone) = true

instance (s : MetricsRegistry F) : (e : MetricsEvent F) → Decidable (s.Ok e)
  | .increment .. | .setGauge .. | .observe .. => inferInstanceAs (Decidable (s.Fits _))
  | .insert _ => inferInstanceAs (Decidable (_ = true))

/-- What is known of a registry by its map and by the calls that are done. -/
theorem Kept.of_eq {t : MetricsRegistry F} (h : Kept s) (hmetrics : t.metrics = s.metrics)
    (hdone : t.done = s.done) : Kept t := by
  obtain ⟨metrics, pending, done⟩ := t
  subst hmetrics hdone
  exact ⟨h.held, h.apart, h.counter, h.sum⟩

theorem kept_call (h : Kept s) (hfits : s.Fits c) : Kept (s.call f64 c) := by
  rw [call]
  split
  · next old hget =>
      have hmetrics : s.metrics.upsert c.key (fun _ => c.write.apply f64 old) =
          s.metrics.upsert c.key (c.written f64) := Table.upsert_congr (by rw [hget]; rfl)
      have hrecord : Kept (s.record f64 c) := kept_record h hfits
      exact hrecord.of_eq hmetrics rfl
  · exact h.of_eq rfl rfl

theorem kept_insert (h : Kept s) {i : Nat} (hok : s.Ok (.insert i : MetricsEvent F)) :
    Kept (s.insert f64 i) := by
  rw [insert]
  split
  · next c hc =>
      have hnone : s.metrics.get? c.key = none := by
        rw [Ok, hc, Option.all_some, Option.isNone_iff_eq_none] at hok
        exact hok
      have hfits : s.Fits c := by
        constructor
        · intro d hd hkey
          have hsome := (h.held c.key).mpr ⟨d, hd, hkey⟩
          rw [hnone] at hsome
          cases hsome
        · rw [hnone]
          cases c.write <;> trivial
      have hmetrics : s.metrics.upsert c.key (fun _ => c.write.value f64) =
          s.metrics.upsert c.key (c.written f64) := Table.upsert_congr (by rw [hnone]; rfl)
      have hrecord : Kept (s.record f64 c) := kept_record h hfits
      exact hrecord.of_eq hmetrics rfl
  · exact h

theorem kept_step (h : Kept s) {e : MetricsEvent F} (hok : s.Ok e) : Kept (s.step f64 e) := by
  cases e with
  | increment name labels delta => exact kept_call h hok
  | setGauge name labels value => exact kept_call h hok
  | observe name labels seconds => exact kept_record h hok
  | insert i => exact kept_insert h hok

/-! ## What the export shows -/

theorem mem_destutter'_ne {α : Type} [DecidableEq α] {x a : α} {l : List α} :
    x ∈ l.destutter' (· ≠ ·) a ↔ x = a ∨ x ∈ l := by
  induction l generalizing a with
  | nil => simp
  | cons b l ih =>
      rw [List.destutter'_cons]
      split
      · rw [List.mem_cons, ih, List.mem_cons]
      · next hab =>
          have hab : a = b := not_not.mp hab
          rw [ih, List.mem_cons, hab]
          exact ⟨fun h => h.imp_right .inr, fun h => h.elim .inl id⟩

theorem mem_destutter_ne {α : Type} [DecidableEq α] {x : α} {l : List α} :
    x ∈ l.destutter (· ≠ ·) ↔ x ∈ l := by
  cases l with
  | nil => simp
  | cons a l => rw [List.destutter_cons', mem_destutter'_ne, List.mem_cons]

theorem pairwise_lt_of_isChain_ne {α : Type} [PartialOrder α] {l : List α}
    (hle : l.Pairwise (· ≤ ·)) (hne : l.IsChain (· ≠ ·)) : l.Pairwise (· < ·) := by
  rw [← List.isChain_iff_pairwise]
  induction l with
  | nil => exact .nil
  | cons a l ih =>
      cases l with
      | nil => exact .singleton a
      | cons b l =>
          rw [List.isChain_cons_cons] at hne ⊢
          rw [List.pairwise_cons] at hle
          exact ⟨lt_of_le_of_ne (hle.1 b List.mem_cons_self) hne.1, ih hle.2 hne.2⟩

theorem mem_names {name : String} : name ∈ s.names ↔ ∃ r ∈ s.metrics.rows, r.1.name = name := by
  rw [names, mem_destutter_ne, List.mem_insertionSort, List.mem_map]

theorem nodup_names : s.names.Nodup := by
  have hle : s.names.Pairwise (· ≤ ·) :=
    (List.pairwise_insertionSort (· ≤ ·) _).sublist (List.destutter_sublist _ _)
  exact (pairwise_lt_of_isChain_ne hle (List.isChain_destutter _ _)).imp ne_of_lt

/-- The value, if it is that of the series of this name and this text. -/
def ExportLine.value? (name text : String) : ExportLine → Option String
  | .sample name' text' value => if name' = name ∧ text' = text then some value else none
  | .help .. | .type .. => none

/-- What the export has for these labels under the headings of `name`. -/
def exported (f64 : Float64 F) (s : MetricsRegistry F) (name : String) (labels : Labels) :
    List String :=
  ((s.names.filter (· = name)).flatMap (s.nameLines f64)).filterMap
    (ExportLine.value? name (labelsText (.new name labels)))

theorem labels_eq_of_labelsText {j k : MetricKey} (h : labelsText j = labelsText k) :
    j.labels = k.labels := by
  have hbraces (labels : String) : braces labels ≠ "" := by
    intro hb
    have hlist := congrArg String.toList hb
    simp [braces] at hlist
  rw [labelsText, labelsText] at h
  split at h
  · next hj =>
      split at h
      · next hk => rw [hj, hk]
      · exact absurd h.symm (hbraces _)
  · split at h
    · exact absurd h (hbraces _)
    · have hlist : j.labels.toList = k.labels.toList := by
        simpa [braces] using congrArg String.toList h
      exact String.toList_inj.mp hlist

theorem value?_of_name_ne {name text name' text' value : String} (h : name' ≠ name) :
    ExportLine.value? name text (.sample name' text' value) = none :=
  if_neg fun hc => h hc.1

theorem append_ne_self {name suffix : String} (h : suffix ≠ "") : name ++ suffix ≠ name := by
  intro he
  exact h (by simpa using congrArg String.toList he)

/-- The lines of a histogram have names of their own. -/
theorem filterMap_histogramLines (key : MetricKey) (h : HistogramInner F) (text : String) :
    (histogramLines f64 key h).filterMap (ExportLine.value? key.name text) = [] := by
  rw [List.filterMap_eq_nil_iff]
  intro line hline
  rw [histogramLines, List.mem_append] at hline
  rcases hline with hline | hline
  · rw [← List.map_uncurry_zip_eq_zipWith, List.mem_map] at hline
    obtain ⟨bucket, -, rfl⟩ := hline
    exact value?_of_name_ne (append_ne_self (by decide))
  · simp only [List.mem_cons, List.not_mem_nil, or_false] at hline
    rcases hline with rfl | rfl | rfl <;> exact value?_of_name_ne (append_ne_self (by decide))

/-- What stands under the headings of a name, row by row. -/
theorem filterMap_nameLines {name : String} (f : ExportLine → Option String)
    (hhelp : ∀ kind, f (.help name kind) = none) (htype : ∀ kind, f (.type name kind) = none) :
    (s.nameLines f64 name).filterMap f =
      (s.metrics.rows.filter fun row => row.1.name = name).flatMap fun row =>
        (valueLines f64 row.1 row.2).filterMap f := by
  rw [nameLines]
  split
  · next hnil => rw [hnil]; rfl
  · next first rest hrows =>
      rw [List.filterMap_append, List.filterMap_cons_none (hhelp _),
        List.filterMap_cons_none (htype _), List.filterMap_nil, List.nil_append,
        List.filterMap_flatMap]

/-- A row of the name shows nothing for the series of another key. -/
theorem filterMap_valueLines {key k : MetricKey} (hname : k.name = key.name) (hne : k ≠ key)
    (value : MetricValue F) :
    (valueLines f64 k value).filterMap (ExportLine.value? key.name (labelsText key)) = [] := by
  have hsample (text : String) :
      ExportLine.value? key.name (labelsText key) (.sample k.name (labelsText k) text) = none := by
    refine if_neg fun h => hne ?_
    obtain ⟨name, labels⟩ := k
    obtain ⟨name', labels'⟩ := key
    obtain rfl : name = name' := hname
    exact congrArg (MetricKey.mk name) (labels_eq_of_labelsText h.2)
  cases value with
  | counter n => exact List.filterMap_cons_none (hsample _)
  | gauge v => exact List.filterMap_cons_none (hsample _)
  | histogram h =>
      rw [← hname]
      exact filterMap_histogramLines k h _

theorem exported_of_counter {name : String} {labels : Labels} {n : UInt64}
    (h : s.metrics.get? (.new name labels) = some (.counter n)) :
    s.exported f64 name labels = [n.toNat.repr] := by
  have hrow := Table.get?_eq_some.mp h
  have hname : s.names.filter (· = name) = [name] := by
    have hmem : name ∈ s.names := mem_names.mpr ⟨_, hrow, rfl⟩
    rw [List.filter_eq, List.count_eq_one_of_mem nodup_names hmem]
    rfl
  have hget : (s.metrics.filter fun key _ => key.name = name).get? (.new name labels) =
      some (.counter n) := by
    rw [Table.get?_filter, h, Option.filter_some]
    exact if_pos (decide_eq_true rfl)
  rw [exported, hname, List.flatMap_singleton, filterMap_nameLines _ (fun _ => rfl) (fun _ => rfl)]
  refine (Table.flatMap_of_get? hget fun row hr hne => ?_).trans ?_
  · have hof : row.1.name = (MetricKey.new name labels).name :=
      of_decide_eq_true (List.mem_filter.mp hr).2
    exact filterMap_valueLines hof hne row.2
  · exact List.filterMap_cons_some (if_pos ⟨rfl, rfl⟩)

/-- Every counter shows what its calls add up to, and calls share a series only
when they have the same labels, in whatever order. -/
structure Lossless (f64 : Float64 F) (s : MetricsRegistry F) : Prop where
  shown : ∀ c ∈ s.done, c.write.isCounter = true →
    s.exported f64 c.name c.labels = [(s.total c.name c.labels).repr]
  apart : ∀ c ∈ s.done, ∀ d ∈ s.done, c.name = d.name → labelsText c.key = labelsText d.key →
    c.labels.Perm d.labels

theorem Kept.lossless (h : Kept s) : Lossless f64 s where
  shown c hc hw := by
    obtain ⟨n, hn⟩ := h.counter c hc hw
    have hsum := h.sum c hc
    rw [hn] at hsum
    rw [exported_of_counter hn, hsum]
    rfl
  apart c hc d hd hname htext := by
    refine h.apart c hc d hd ?_
    have hlabels := labels_eq_of_labelsText htext
    rw [MetricCall.key, MetricCall.key, MetricKey.new, MetricKey.new, MetricKey.mk.injEq]
    exact ⟨hname, hlabels⟩

/-- A run of calls that fit, and of which none inserts where another has meanwhile. -/
theorem lossless_of_along (f64 : Float64 F) {es : List (MetricsEvent F)}
    (h : Along (step f64) Ok new es) : Lossless f64 (es.foldl (step f64) new) := by
  have hstep (s : MetricsRegistry F) (e : MetricsEvent F) (he : s.Ok e) (hs : Kept s) :
      Kept (s.step f64 e) := kept_step hs he
  exact (Along.invariant hstep kept_new h).lossless

/-- Durations in whole seconds. -/
def seconds : Float64 Nat :=
  { zero := 0
    add := (· + ·)
    le := fun a b => decide (a ≤ b)
    toString := Nat.repr
    defaultBuckets := [1, 5, 10, 30, 60] }

/-- Two tools are called, one of them twice. -/
def toolCalls : List (MetricsEvent Nat) :=
  [.increment "calls" [("tool", "read"), ("status", "ok")] 1, .insert 0,
    .increment "calls" [("tool", "bash"), ("status", "ok")] 1,
    .increment "calls" [("status", "ok"), ("tool", "read")] 1, .insert 0,
    .observe "duration" [("tool", "bash")] 7, .setGauge "active" [] (-1), .insert 0]

/-- The first two increments of a counter at once. -/
def bothFirst : List (MetricsEvent Nat) :=
  [.increment "calls" [] 1, .increment "calls" [] 2, .insert 0, .insert 0]

/-- One label whose value reads like two. -/
def quoted : List (MetricsEvent Nat) :=
  [.increment "calls" [("a", "1\",b=\"2")] 1, .insert 0,
    .increment "calls" [("a", "1"), ("b", "2")] 2]

theorem lossless_toolCalls : Lossless seconds (toolCalls.foldl (step seconds) new) :=
  lossless_of_along seconds (by decide)

theorem not_lossless_bothFirst :
    ¬ Lossless seconds (bothFirst.foldl (step seconds) new) ∧
      ¬ Lossless seconds (quoted.foldl (step seconds) new) := by
  constructor
  · intro h
    have hshown := h.shown ⟨"calls", [], .counter 1⟩ (by decide) rfl
    exact absurd hshown (by decide)
  · intro h
    have hapart := h.apart ⟨"calls", [("a", "1\",b=\"2")], .counter 1⟩ (by decide)
      ⟨"calls", [("a", "1"), ("b", "2")], .counter 2⟩ (by decide) rfl (by decide)
    exact absurd hapart (by decide)

end MetricsRegistry

end Pandaria.Observability
