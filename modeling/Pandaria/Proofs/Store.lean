import Pandaria.Comp.Instance
import Pandaria.Lib.Run
import Pandaria.Proofs.Instance

/-!
# The status column against the fold

The in-memory store folds the events of an instance and an SQL store reads a
column that four kinds of event write. The two are compared instance by
instance: `AgreesAt` asks that the instance is in both or in neither and that
the column spells the status of the fold. Since the column is never
`waiting_for_signal`, an instance that waits for a signal is out of step, and
while the stores agree no signal is expected and no fold panics.
-/

namespace Pandaria.Comp

open Pandaria.Ai Pandaria.Lib

/-! ## Folding one more event -/

namespace MemoryEventStore

variable {clock : String → Nat → SystemTime}

theorem foldStream_append {id : String} {events : List WorkflowEvent} {e : WorkflowEvent} :
    foldStream clock id (events ++ [e]) =
      (foldStream clock id events).bind fun s => s.apply (clock id events.length) e := by
  rw [foldStream, List.zipIdx_append, List.map_append, InstanceState.replay_append]
  congr 1
  funext s
  simp only [List.zipIdx_cons, List.zipIdx_nil, List.map_cons, List.map_nil,
    InstanceState.replay, Nat.zero_add]
  cases s.apply (clock id events.length) e <;> rfl

theorem foldStream_singleton {id : String} {e : WorkflowEvent} :
    foldStream clock id [e] = (InstanceState.blank id).apply (clock id 0) e := by
  have h : foldStream clock id ([] ++ [e]) = _ := foldStream_append
  rw [List.nil_append] at h
  rw [h]
  rfl

/-! ## The in-memory list -/

theorem listRows_isSome {status : InstanceStatus} {rows : List (String × List WorkflowEvent)}
    {ids : List String} (h : listRows clock status rows = some ids) :
    ∀ r ∈ rows, ∃ s, foldStream clock r.1 r.2 = some s := by
  induction rows generalizing ids with
  | nil => intro r hr; cases hr
  | cons r rs ih =>
      rw [listRows] at h
      obtain ⟨s, hs, h⟩ := Option.bind_eq_some_iff.mp h
      obtain ⟨ids', h', -⟩ := Option.map_eq_some_iff.mp h
      intro r' hr'
      rcases List.mem_cons.mp hr' with rfl | hr'
      · exact ⟨s, hs⟩
      · exact ih h' r' hr'

/-- What the fold of a stream is listed under. -/
def listed (clock : String → Nat → SystemTime) (status : InstanceStatus) (id : String)
    (events : List WorkflowEvent) : Bool :=
  (foldStream clock id events).any fun s => s.status.discriminant = status.discriminant

theorem listRows_eq {status : InstanceStatus} {rows : List (String × List WorkflowEvent)}
    (h : ∀ r ∈ rows, ∃ s, foldStream clock r.1 r.2 = some s) :
    listRows clock status rows =
      some ((rows.filter fun r => listed clock status r.1 r.2).map Prod.fst) := by
  induction rows with
  | nil => rfl
  | cons r rs ih =>
      obtain ⟨s, hs⟩ := h r List.mem_cons_self
      rw [listRows, hs, Option.bind_some, ih fun r' hr' => h r' (List.mem_cons_of_mem _ hr')]
      have hl : listed clock status r.1 r.2 =
          decide (s.status.discriminant = status.discriminant) := by
        rw [listed, hs, Option.any_some]
      by_cases hd : s.status.discriminant = status.discriminant
      · rw [List.filter_cons_of_pos (by rw [hl]; exact decide_eq_true hd), List.map_cons,
          Option.map_some, if_pos hd]
      · rw [List.filter_cons_of_neg (by rw [hl]; simpa using hd), Option.map_some, if_neg hd]

/-- `list_by_status` answers exactly when every stream folds, and then it
selects. -/
theorem listByStatus_eq_some {s : MemoryEventStore} {status : InstanceStatus} {ids : List String} :
    listByStatus clock s status = some ids ↔
      (∀ id events, s.get? id = some events → ∃ st, foldStream clock id events = some st) ∧
        ids = s.select (listed clock status) := by
  have hrows : (∀ r ∈ s.rows, ∃ st, foldStream clock r.1 r.2 = some st) ↔
      ∀ id events, s.get? id = some events → ∃ st, foldStream clock id events = some st := by
    constructor
    · intro h id events he
      exact h (id, events) (Table.get?_eq_some.mp he)
    · intro h r hr
      exact h r.1 r.2 (Table.get?_eq_some.mpr hr)
  rw [← hrows]
  constructor
  · intro h
    have hf := listRows_isSome h
    have he : listRows clock status s.rows = _ := listRows_eq hf
    rw [listByStatus, he] at h
    injection h with h
    exact ⟨hf, h.symm⟩
  · rintro ⟨hf, rfl⟩
    exact listRows_eq hf

end MemoryEventStore

/-! ## Agreement -/

theorem InstanceStatus.discriminant_eq_iff {s t : InstanceStatus} :
    s.discriminant = t.discriminant ↔ s.asStr = t.asStr := by
  cases s <;> cases t <;> simp [discriminant, asStr]

namespace SqlEventStore

/-- A memory store given the events an SQL store holds, in the same order. -/
def mirror (s : SqlEventStore) : MemoryEventStore :=
  s.workflowEvents.foldl (fun m e => m.append e.1 e.2) .empty

/-- Both stores list the same instances under every status, each once. -/
def Agrees (s : SqlEventStore) : Prop :=
  ∀ clock status, ∃ ids, s.mirror.listByStatus clock status = some ids ∧
    ids.Perm (s.listByStatus status)

def column (s : SqlEventStore) (id : String) : Option String :=
  (s.workflowInstances.get? id).map InstanceRow.status

/-- What the tables hold is what appends have written: a status is one of four,
and its instance has an event. -/
structure Written (s : SqlEventStore) : Prop where
  status : ∀ id c, s.column id = some c →
    c = "pending" ∨ c = "running" ∨ c = "completed" ∨ c = "failed"
  stream : ∀ id c, s.column id = some c → ∃ events, s.mirror.get? id = some events

/-- The column of an instance spells the status its stream folds to. -/
def AgreesAt (s : SqlEventStore) (id : String) : Prop :=
  ∀ clock, match s.mirror.get? id with
    | none => s.column id = none
    | some events => ∃ st, MemoryEventStore.foldStream clock id events = some st ∧
        s.column id = some st.status.asStr

theorem mem_listByStatus {s : SqlEventStore} {status : InstanceStatus} {id : String} :
    id ∈ s.listByStatus status ↔ s.column id = some status.asStr := by
  rw [listByStatus, Table.mem_select, column]
  cases s.workflowInstances.get? id with
  | none => simp
  | some row => simp

theorem agrees_iff {s : SqlEventStore} (hw : s.Written) : s.Agrees ↔ ∀ id, s.AgreesAt id := by
  constructor
  · intro h id clock
    cases hm : s.mirror.get? id with
    | none =>
        cases hc : s.column id with
        | none => rfl
        | some c =>
            obtain ⟨events, he⟩ := hw.stream id c hc
            rw [hm] at he
            cases he
    | some events =>
        obtain ⟨ids, hids, -⟩ := h clock .pending
        obtain ⟨st, hst⟩ := (MemoryEventStore.listByStatus_eq_some.mp hids).1 id events hm
        refine ⟨st, hst, ?_⟩
        obtain ⟨ids, hids, hp⟩ := h clock st.status
        obtain ⟨-, rfl⟩ := MemoryEventStore.listByStatus_eq_some.mp hids
        rw [← mem_listByStatus, ← hp.mem_iff, Table.mem_select]
        exact ⟨events, hm, by simp [MemoryEventStore.listed, hst]⟩
  · intro h clock status
    refine ⟨_, MemoryEventStore.listByStatus_eq_some.mpr ⟨?_, rfl⟩, ?_⟩
    · intro id events he
      have ha := h id clock
      rw [he] at ha
      obtain ⟨st, hst, -⟩ := ha
      exact ⟨st, hst⟩
    · refine Table.select_perm ?_
      intro id
      have ha := h id clock
      have hl : id ∈ s.workflowInstances.select (fun _ row => row.status = status.asStr) ↔
          s.column id = some status.asStr := mem_listByStatus
      rw [hl, Table.mem_select]
      cases he : s.mirror.get? id with
      | none =>
          rw [he] at ha
          rw [ha]
          simp
      | some events =>
          rw [he] at ha
          obtain ⟨st, hst, hc⟩ := ha
          rw [hc, Option.some_inj, ← InstanceStatus.discriminant_eq_iff]
          simp [MemoryEventStore.listed, hst]

/-! ## One append -/

/-- The store after an append, whatever it returned. -/
def commit (s : SqlEventStore) (a : String × WorkflowEvent × Statements) : SqlEventStore :=
  (s.append a.1 a.2.1 a.2.2).2

/-- When an event keeps the column of an instance that reads `c` in step. -/
def Fits (c : String) (fate : Statements) : WorkflowEvent → Prop
  | .instanceCreated _ _ => fate = .executed ∨ c = "pending"
  | .instanceStarted => fate = .executed ∨ c = "running"
  | .workflowCompleted _ _ => fate = .executed ∨ c = "completed"
  | .workflowFailed _ _ => fate = .executed ∨ c = "failed"
  | .signalWaitStarted _ _ | .breakpointHit _ _ _ => False
  | .stepFailed _ _ _ willRetry => willRetry = true ∨ c = "failed"
  | .cancelRequested _ => c = "failed"
  | .signalReceived _ _ _ action _ => action = some .reject → c = "failed"
  | _ => True

/-- When an append keeps the stores in step: the first event of an instance
writes its status, and a later one fits the column. -/
def Marked (s : SqlEventStore) (a : String × WorkflowEvent × Statements) : Prop :=
  a.2.2 = .rejected ∨
    match s.column a.1 with
    | none => (statusOf a.2.1).2 ≠ "" ∧ a.2.2 = .executed
    | some c => Fits c a.2.2 a.2.1

variable {s : SqlEventStore} {i : String} {e : WorkflowEvent} {fate : Statements}

theorem commit_rejected : s.commit (i, e, .rejected) = s := rfl

theorem mirror_commit (hf : fate ≠ .rejected) :
    (s.commit (i, e, fate)).mirror = s.mirror.append i e := by
  have hm : ∀ t : SqlEventStore, t.workflowEvents = s.workflowEvents ++ [(i, e)] →
      t.mirror = s.mirror.append i e := by
    intro t ht
    rw [mirror, ht, List.foldl_append]
    rfl
  apply hm
  rw [commit, append, if_neg hf]
  simp only []
  split
  · split <;> rfl
  · rfl

theorem column_upsertInstanceMeta {wf c j : String} :
    (s.upsertInstanceMeta i wf c).column j = if j = i then some c else s.column j := by
  rw [column, upsertInstanceMeta, Table.get?_upsert]
  by_cases h : j = i
  · rw [if_pos h, if_pos h]
    cases s.workflowInstances.get? i <;> rfl
  · rw [if_neg h, if_neg h]
    rfl

theorem column_commit {j : String} :
    (s.commit (i, e, fate)).column j =
      if j = i ∧ (statusOf e).2 ≠ "" ∧ fate = .executed then some (statusOf e).2
      else s.column j := by
  rw [commit, append]
  cases fate with
  | rejected => simp
  | unmarked =>
      by_cases hs : (statusOf e).2 = ""
      · simp [hs, column]
      · simp [hs, column]
  | executed =>
      by_cases hs : (statusOf e).2 = ""
      · simp [hs, column]
      · simp only [reduceCtorEq, if_false, ne_eq, hs, not_false_eq_true, if_true,
          and_true, column_upsertInstanceMeta]
        rfl

theorem stream_commit (hf : fate ≠ .rejected) {j : String} :
    (s.commit (i, e, fate)).mirror.get? j =
      if j = i then some ((s.mirror.get? i).getD [] ++ [e]) else s.mirror.get? j := by
  rw [mirror_commit hf, MemoryEventStore.append, Table.get?_upsert]

theorem statusOf_cases (h : (statusOf e).2 ≠ "") :
    (statusOf e).2 = "pending" ∨ (statusOf e).2 = "running" ∨ (statusOf e).2 = "completed" ∨
      (statusOf e).2 = "failed" := by
  cases e <;> simp_all [statusOf]

theorem Written.commit (h : s.Written) (a : String × WorkflowEvent × Statements) :
    (s.commit a).Written := by
  obtain ⟨i, e, fate⟩ := a
  by_cases hf : fate = .rejected
  · rw [hf, commit_rejected]
    exact h
  · constructor
    · intro j c hc
      rw [column_commit] at hc
      split at hc
      · next hw =>
          injection hc with hc
          rw [← hc]
          exact statusOf_cases hw.2.1
      · exact h.status j c hc
    · intro j c hc
      rw [stream_commit hf]
      by_cases hj : j = i
      · rw [if_pos hj]
        exact ⟨_, rfl⟩
      · rw [if_neg hj]
        rw [column_commit, if_neg fun hw => hj hw.1] at hc
        exact h.stream j c hc

/-- An append moves the instance it is for and no other. -/
theorem agreesAt_commit_other {j : String} (hj : j ≠ i) :
    (s.commit (i, e, fate)).AgreesAt j ↔ s.AgreesAt j := by
  by_cases hf : fate = .rejected
  · rw [hf, commit_rejected]
  · rw [AgreesAt, stream_commit hf, column_commit, if_neg hj, if_neg fun hw => hj hw.1]
    exact Iff.rfl

/-- What an event does to a fold whose status the column can spell. -/
theorem fits_iff {st : InstanceState} (now : SystemTime)
    (hst : st.status = .pending ∨ st.status = .running ∨ st.status = .completed ∨
      st.status = .failed) :
    (∃ st', st.apply now e = some st' ∧
      (if (statusOf e).2 ≠ "" ∧ fate = .executed then (statusOf e).2 else st.status.asStr) =
        st'.status.asStr) ↔ Fits st.status.asStr fate e := by
  have hone : ∀ {st' : InstanceState} {c : String}, st.apply now e = some st' →
      ((∃ st', st.apply now e = some st' ∧ c = st'.status.asStr) ↔ c = st'.status.asStr) := by
    intro st' c h
    rw [h]
    simp
  cases e with
  | signalReceived name payload at' action reviewer =>
      have hnw : st.status ≠ .waitingForSignal name := by
        rintro hw
        rw [hw] at hst
        simp at hst
      by_cases ha : action = some .reject
      · rw [hone (by rw [InstanceState.apply, if_pos ha])]
        rcases hst with h | h | h | h <;> simp [statusOf, Fits, ha, h, InstanceStatus.asStr]
      · rw [hone (by rw [InstanceState.apply, if_neg ha, if_neg hnw])]
        simp [statusOf, Fits, ha]
  | stepFailed stepId error attempt willRetry =>
      rw [hone rfl]
      rcases hst with h | h | h | h <;> cases willRetry <;>
        simp [statusOf, Fits, h, InstanceState.setResult, InstanceStatus.asStr]
  | instanceCreated | instanceStarted | workflowCompleted | workflowFailed =>
      rw [hone rfl]
      cases fate <;> simp [statusOf, Fits, InstanceStatus.asStr]
  | signalWaitStarted | breakpointHit | cancelRequested =>
      rw [hone rfl]
      rcases hst with h | h | h | h <;> simp [statusOf, Fits, h, InstanceStatus.asStr]
  | _ =>
      rw [hone rfl]
      simp [statusOf, Fits, InstanceState.setResult]

/-- The first event of an instance is in step when it writes its status. -/
theorem agreesAt_commit_first (hf : fate ≠ .rejected) (hs : s.mirror.get? i = none)
    (hc : s.column i = none) :
    (s.commit (i, e, fate)).AgreesAt i ↔ (statusOf e).2 ≠ "" ∧ fate = .executed := by
  rw [AgreesAt, stream_commit hf, if_pos rfl, column_commit, hs, hc]
  simp only [true_and, Option.getD_none, List.nil_append]
  constructor
  · intro h
    by_contra hn
    obtain ⟨st, -, hc'⟩ := h fun _ _ => 0
    rw [if_neg hn] at hc'
    cases hc'
  · intro h clock
    have hfit : Fits (InstanceState.blank i).status.asStr fate e := by
      obtain ⟨hne, rfl⟩ := h
      cases e <;> simp_all [statusOf, Fits]
    obtain ⟨st, hst, hc'⟩ := (fits_iff (clock i 0) (.inl rfl)).mpr hfit
    rw [if_pos h] at hc' ⊢
    rw [MemoryEventStore.foldStream_singleton]
    exact ⟨st, hst, by rw [hc']⟩

/-- A later event is in step when it fits the column. -/
theorem agreesAt_commit_later {c : String} (hw : s.Written) (hf : fate ≠ .rejected)
    (ha : s.AgreesAt i) (hc : s.column i = some c) :
    (s.commit (i, e, fate)).AgreesAt i ↔ Fits c fate e := by
  obtain ⟨events, hs⟩ := hw.stream i c hc
  have hclock : ∀ clock, (∃ st, MemoryEventStore.foldStream clock i (events ++ [e]) = some st ∧
      (s.commit (i, e, fate)).column i = some st.status.asStr) ↔ Fits c fate e := by
    intro clock
    have ha := ha clock
    rw [hs, hc] at ha
    obtain ⟨st, hst, hcs⟩ := ha
    injection hcs with hcs
    have hst4 : st.status = .pending ∨ st.status = .running ∨ st.status = .completed ∨
        st.status = .failed := by
      have h4 := hw.status i c hc
      rw [hcs] at h4
      cases hstat : st.status <;> simp [hstat, InstanceStatus.asStr] at h4 ⊢
    rw [MemoryEventStore.foldStream_append, hst, Option.bind_some, column_commit, hc, hcs,
      ← fits_iff (clock i events.length) hst4]
    simp only [true_and]
    split <;> simp only [Option.some_inj]
  rw [AgreesAt, stream_commit hf, if_pos rfl, hs]
  constructor
  · intro h
    exact (hclock fun _ _ => 0).mp (h fun _ _ => 0)
  · intro h clock
    exact (hclock clock).mpr h

theorem agrees_commit_iff (hw : s.Written) (ha : s.Agrees)
    (a : String × WorkflowEvent × Statements) : (s.commit a).Agrees ↔ s.Marked a := by
  obtain ⟨i, e, fate⟩ := a
  have hat := (agrees_iff hw).mp ha
  rw [agrees_iff (hw.commit _), Marked]
  by_cases hf : fate = .rejected
  · rw [hf, commit_rejected]
    simp [hat]
  · have hself : (s.commit (i, e, fate)).AgreesAt i ↔
        match s.column i with
        | none => (statusOf e).2 ≠ "" ∧ fate = .executed
        | some c => Fits c fate e := by
      cases hc : s.column i with
      | none =>
          refine agreesAt_commit_first hf ?_ hc
          cases hs : s.mirror.get? i with
          | none => rfl
          | some events =>
              have h := hat i fun _ _ => 0
              rw [hs, hc] at h
              obtain ⟨st, -, h⟩ := h
              cases h
      | some c => exact agreesAt_commit_later hw hf (hat i) hc
    simp only [hf, false_or]
    rw [← hself]
    constructor
    · intro h
      exact h i
    · intro h j
      by_cases hj : j = i
      · rw [hj]
        exact h
      · exact (agreesAt_commit_other hj).mpr (hat j)

theorem written_empty : empty.Written := by
  constructor
  · intro id c h
    cases h
  · intro id c h
    cases h

/-- The stores agree throughout a run exactly when every append keeps them in
step. -/
theorem agrees_iff_marked (es : List (String × WorkflowEvent × Statements)) :
    (∀ n, ((es.take n).foldl commit empty).Agrees) ↔ Along commit Marked empty es := by
  have hwritten : ∀ es : List (String × WorkflowEvent × Statements),
      (es.foldl commit empty).Written := by
    intro es
    exact List.foldlRecOn es commit written_empty fun s h a _ => h.commit a
  have hstep : ∀ (s : SqlEventStore) a, s.Written ∧ s.Agrees →
      ((s.commit a).Written ∧ (s.commit a).Agrees ↔ s.Marked a) := by
    rintro s a ⟨hw, ha⟩
    rw [agrees_commit_iff hw ha]
    exact and_iff_right (hw.commit a)
  have hinit : empty.Written ∧ empty.Agrees := by
    refine ⟨written_empty, (agrees_iff written_empty).mpr ?_⟩
    intro id clock
    rfl
  rw [← along_iff_forall_take hstep hinit es]
  constructor
  · intro h n
    exact ⟨hwritten _, h n⟩
  · intro h n
    exact (h n).2

/-- An instance that waits for a signal, and one whose start is in the events
alone. -/
theorem not_agrees :
    let waiting := [("i1", WorkflowEvent.instanceCreated "wf" .null, Statements.executed),
      ("i1", .instanceStarted, .executed), ("i1", .signalWaitStarted "s1" "approve", .executed)]
    let unmarked := [("i1", WorkflowEvent.instanceCreated "wf" .null, Statements.executed),
      ("i1", .instanceStarted, .unmarked)]
    let s := waiting.foldl commit empty
    let t := unmarked.foldl commit empty
    (s.mirror.listByStatus (fun _ _ => 0) (.waitingForSignal "") = some ["i1"] ∧
      s.listByStatus (.waitingForSignal "") = []) ∧
    (t.mirror.listByStatus (fun _ _ => 0) .running = some ["i1"] ∧ t.listByStatus .running = []) ∧
    ¬ s.Agrees ∧ ¬ t.Agrees := by
  intro waiting unmarked s t
  have hs : s.mirror.listByStatus (fun _ _ => 0) (.waitingForSignal "") = some ["i1"] ∧
      s.listByStatus (.waitingForSignal "") = [] := ⟨rfl, rfl⟩
  have ht : t.mirror.listByStatus (fun _ _ => 0) .running = some ["i1"] ∧
      t.listByStatus .running = [] := ⟨rfl, rfl⟩
  have hdiff : ∀ (s : SqlEventStore) status,
      s.mirror.listByStatus (fun _ _ => 0) status = some ["i1"] ∧ s.listByStatus status = [] →
        ¬ s.Agrees := by
    rintro s status ⟨hm, hl⟩ h
    obtain ⟨ids, hids, hp⟩ := h (fun _ _ => 0) status
    rw [hm] at hids
    injection hids with hids
    rw [hl, ← hids] at hp
    exact absurd hp.length_eq (by decide)
  exact ⟨hs, ht, hdiff s _ hs, hdiff t _ ht⟩

end SqlEventStore

end Pandaria.Comp
