import Pandaria.Agent.Hooks
import Pandaria.Lib.ByteText

/-!
# The fragments of a prompt, and where they stand in it

Whatever is done to a builder comes down to five edits, and its fragments stay in order
under all of them: ids are unique, and of two fragments of one priority the one that was
in front stays there. What fails is the bound on what a fragment says. A truncation
counts bytes, so it panics when the bound falls into a character, and a text that
replaces the whole prompt is not truncated at all.

The content a fragment was given is that in a builder which is edited the same way and
truncates nothing.

The last section is about rendering: the metadata say where each fragment stands.
-/

namespace Pandaria.Agent.Hook

open Pandaria.Ai
open Pandaria.Lib

/-! ## Edits -/

inductive Edit where
  | upsertFragment (f : PromptFragment)
  | removeById (id : String)
  | removeBySource (source : FragmentSource)
  | removeByKind (kind : FragmentKind)
  | replaceAll (text : String)
deriving DecidableEq

/-- What can be done to a builder. -/
inductive Operation where
  | upsertFragment (f : PromptFragment)
  | removeById (id : String)
  | removeBySource (source : FragmentSource)
  | removeByKind (kind : FragmentKind)
  | applyMutation (m : PromptMutation)
deriving DecidableEq

def PromptMutation.edits (m : PromptMutation) : List Edit :=
  match m.replaceAll with
  | some text => [.replaceAll text]
  | none =>
      m.removeIds.map .removeById ++ m.removeSources.map .removeBySource ++
        m.removeKinds.map .removeByKind ++ m.upsertFragments.map .upsertFragment

def Operation.edits : Operation → List Edit
  | .upsertFragment f => [.upsertFragment f]
  | .removeById id => [.removeById id]
  | .removeBySource source => [.removeBySource source]
  | .removeByKind kind => [.removeByKind kind]
  | .applyMutation m => m.edits

namespace PromptBuilder

def edit (b : PromptBuilder) : Edit → Option PromptBuilder
  | .upsertFragment f => b.upsertFragment f
  | .removeById id => some (b.removeById id)
  | .removeBySource source => some (b.removeBySource source)
  | .removeByKind kind => some (b.removeByKind kind)
  | .replaceAll text => some (fromBase text)

def perform (b : PromptBuilder) : Operation → Option PromptBuilder
  | .upsertFragment f => b.upsertFragment f
  | .removeById id => some (b.removeById id)
  | .removeBySource source => some (b.removeBySource source)
  | .removeByKind kind => some (b.removeByKind kind)
  | .applyMutation m => b.applyMutation m

/-- `default` or `from_base`. -/
def start : Option String → PromptBuilder
  | none => ⟨[]⟩
  | some base => fromBase base

/-- `upsert_fragment` behind the truncation. -/
def put (b : PromptBuilder) (f : PromptFragment) : PromptBuilder :=
  let fragments := match b.fragments.findIdx? fun g => g.id = f.id with
    | some pos => b.fragments.set pos f
    | none => b.fragments ++ [f]
  ⟨fragments.insertionSort fun f g => f.priority ≤ g.priority⟩

/-- An edit that truncates nothing. -/
def editWhole (b : PromptBuilder) : Edit → PromptBuilder
  | .upsertFragment f => b.put f
  | .removeById id => b.removeById id
  | .removeBySource source => b.removeBySource source
  | .removeByKind kind => b.removeByKind kind
  | .replaceAll text => fromBase text

def ids (b : PromptBuilder) : List String := b.fragments.map fun f => f.id

end PromptBuilder

open Pandaria.Agent.Hook.PromptBuilder

/-! ## The claim -/

/-- What is stored of a fragment: as much of its content as there is room for. -/
structure Truncated (given stored : PromptFragment) : Prop where
  same : stored = { given with content := stored.content }
  within : ByteText.size stored.content ≤ Agent.PromptBuilder.maxFragmentBytes
  beginning : stored.content <+: given.content

/-- Fragments of one priority stay in their order. -/
def Stable (b b' : PromptBuilder) : Prop :=
  ∀ f ∈ b'.fragments, ∀ g ∈ b'.fragments, f.priority = g.priority →
    [f.id, g.id].Sublist b.ids → [f.id, g.id].Sublist b'.ids

/-- No operation panics, and the fragments are as they should be after each edit. -/
structure WellKept (base : Option String) (ops : List Operation) : Prop where
  returns : ∃ b, ops.foldlM perform (start base) = some b
  reached : ∀ es, es <+: ops.flatMap Operation.edits →
    ∀ b, es.foldlM edit (start base) = some b →
      b.ids.Nodup ∧ b.fragments.Pairwise (fun f g => f.priority ≤ g.priority) ∧
        List.Forall₂ Truncated (es.foldl editWhole (start base)).fragments b.fragments
  stable : ∀ es e, es ++ [e] <+: ops.flatMap Operation.edits →
    ∀ b b', es.foldlM edit (start base) = some b → b.edit e = some b' → Stable b b'

/-- A text within the bound, or with a character that begins there. -/
def Cuttable (text : List Char) : Prop :=
  ByteText.size text ≤ Agent.PromptBuilder.maxFragmentBytes ∨
    ∃ s, s <+: text ∧ ByteText.size s = Agent.PromptBuilder.maxFragmentBytes

def Edit.Fits : Edit → Prop
  | .upsertFragment f => Cuttable f.content
  | .replaceAll text => ByteText.size text.toList ≤ Agent.PromptBuilder.maxFragmentBytes
  | .removeById _ | .removeBySource _ | .removeByKind _ => True

/-! ## Truncation -/

theorem truncate_eq_some_iff {n : Nat} {text s : List Char} :
    truncate n text = some s ↔
      s <+: text ∧ (ByteText.size s = n ∨ s = text ∧ ByteText.size text ≤ n) := by
  induction text generalizing n s with
  | nil =>
      rw [truncate, Option.some_inj, List.prefix_nil]
      constructor
      · rintro rfl
        exact ⟨rfl, .inr ⟨rfl, Nat.zero_le n⟩⟩
      · exact fun h => h.1.symm
  | cons c rest ih =>
      have hc := c.utf8Size_pos
      cases n with
      | zero =>
          rw [truncate, Option.some_inj]
          constructor
          · rintro rfl
            exact ⟨List.nil_prefix, .inl rfl⟩
          · rintro ⟨-, hsize | ⟨-, hsize⟩⟩
            · by_contra hne
              have hpos := ByteText.size_pos fun h => hne h.symm
              omega
            · rw [ByteText.size] at hsize
              omega
      | succ n =>
          rw [truncate]
          split
          · next hle =>
              rw [Option.map_eq_some_iff]
              constructor
              · rintro ⟨s, hs, rfl⟩
                obtain ⟨hpre, hsize⟩ := ih.mp hs
                refine ⟨List.cons_prefix_cons.mpr ⟨rfl, hpre⟩, ?_⟩
                rcases hsize with hsize | ⟨rfl, hsize⟩
                · rw [ByteText.size]
                  exact .inl (by omega)
                · rw [ByteText.size]
                  exact .inr ⟨rfl, by omega⟩
              · rintro ⟨hpre, hsize⟩
                cases s with
                | nil =>
                    rcases hsize with hsize | ⟨hnil, -⟩
                    · cases hsize
                    · cases hnil
                | cons d s =>
                    obtain ⟨rfl, hrest⟩ := List.cons_prefix_cons.mp hpre
                    refine ⟨s, ih.mpr ⟨hrest, ?_⟩, rfl⟩
                    rcases hsize with hsize | ⟨heq, hsize⟩
                    · rw [ByteText.size] at hsize
                      exact .inl (by omega)
                    · rw [ByteText.size] at hsize
                      injection heq with _ heq
                      exact .inr ⟨heq, by omega⟩
          · next hgt =>
              refine iff_of_false (fun h => by cases h) ?_
              rintro ⟨hpre, hsize⟩
              cases s with
              | nil =>
                  rcases hsize with hsize | ⟨hnil, -⟩
                  · cases hsize
                  · cases hnil
              | cons d s =>
                  obtain ⟨rfl, -⟩ := List.cons_prefix_cons.mp hpre
                  rcases hsize with hsize | ⟨-, hsize⟩
                  · rw [ByteText.size] at hsize
                    omega
                  · rw [ByteText.size] at hsize
                    omega

theorem cuttable_iff {text : List Char} :
    Cuttable text ↔ ∃ s, truncate Agent.PromptBuilder.maxFragmentBytes text = some s := by
  constructor
  · rintro (hsize | ⟨s, hpre, hsize⟩)
    · exact ⟨text, truncate_eq_some_iff.mpr ⟨List.prefix_rfl, .inr ⟨rfl, hsize⟩⟩⟩
    · exact ⟨s, truncate_eq_some_iff.mpr ⟨hpre, .inl hsize⟩⟩
  · rintro ⟨s, hs⟩
    obtain ⟨hpre, hsize | ⟨-, hsize⟩⟩ := truncate_eq_some_iff.mp hs
    · exact .inr ⟨s, hpre, hsize⟩
    · exact .inl hsize

/-! ## What an edit does -/

/-- Removals do not fail. -/
theorem foldlM_removals {α : Type} {make : α → Edit} {f : PromptBuilder → α → PromptBuilder}
    (h : ∀ b x, edit b (make x) = some (f b x)) (xs : List α) (b : PromptBuilder) :
    (xs.map make).foldlM edit b = some (xs.foldl f b) := by
  induction xs generalizing b with
  | nil => rfl
  | cons x xs ih =>
      rw [List.map_cons, List.foldlM_cons, h]
      exact ih (f b x)

theorem applyMutation_eq (b : PromptBuilder) (m : PromptMutation) :
    b.applyMutation m = m.edits.foldlM edit b := by
  rw [applyMutation, PromptMutation.edits]
  cases m.replaceAll with
  | some text => rfl
  | none =>
      rw [List.foldlM_append, List.foldlM_append, List.foldlM_append,
        foldlM_removals (f := PromptBuilder.removeById) fun _ _ => rfl, Option.bind_eq_bind,
        Option.bind_some,
        foldlM_removals (f := PromptBuilder.removeBySource) fun _ _ => rfl, Option.bind_some,
        foldlM_removals (f := PromptBuilder.removeByKind) fun _ _ => rfl, Option.bind_some,
        List.foldlM_map]
      rfl

theorem perform_eq (b : PromptBuilder) (op : Operation) :
    b.perform op = op.edits.foldlM edit b := by
  cases op with
  | upsertFragment f => exact (bind_pure _).symm
  | removeById _ | removeBySource _ | removeByKind _ => rfl
  | applyMutation m => exact applyMutation_eq b m

/-- A run of operations is a run of their edits. -/
theorem foldlM_perform (ops : List Operation) (b : PromptBuilder) :
    ops.foldlM perform b = (ops.flatMap Operation.edits).foldlM edit b := by
  induction ops generalizing b with
  | nil => rfl
  | cons op ops ih =>
      rw [List.foldlM_cons, perform_eq, List.flatMap_cons, List.foldlM_append]
      exact bind_congr fun b' => ih b'

/-! ## Edits that truncate nothing -/

/-- Where an edited fragment goes before the sorting. -/
def placed (b : PromptBuilder) (f : PromptFragment) : List PromptFragment :=
  match b.fragments.findIdx? fun g => g.id = f.id with
  | some pos => b.fragments.set pos f
  | none => b.fragments ++ [f]

theorem put_eq (b : PromptBuilder) (f : PromptFragment) :
    b.put f = ⟨(placed b f).insertionSort fun f g => f.priority ≤ g.priority⟩ := rfl

theorem upsertFragment_eq (b : PromptBuilder) (f : PromptFragment) :
    b.upsertFragment f = (truncate Agent.PromptBuilder.maxFragmentBytes f.content).map
      fun content => b.put { f with content := content } := rfl

/-- A fragment takes the place of the one with its id, or comes last. -/
theorem placed_cases (b : PromptBuilder) (f : PromptFragment) :
    (∃ before g after, b.fragments = before ++ g :: after ∧ g.id = f.id ∧
      placed b f = before ++ f :: after) ∨
    f.id ∉ b.ids ∧ placed b f = b.fragments ++ [f] := by
  rw [placed]
  cases hfind : b.fragments.findIdx? fun g => g.id = f.id with
  | none =>
      refine .inr ⟨fun hmem => ?_, rfl⟩
      obtain ⟨g, hg, hid⟩ := List.mem_map.mp hmem
      have hne := List.findIdx?_eq_none_iff.mp hfind g hg
      exact of_decide_eq_false hne hid
  | some pos =>
      obtain ⟨hpos, hid, -⟩ := List.findIdx?_eq_some_iff_getElem.mp hfind
      refine .inl ⟨b.fragments.take pos, b.fragments[pos], b.fragments.drop (pos + 1), ?_,
        of_decide_eq_true hid, ?_⟩
      · rw [List.getElem_cons_drop, List.take_append_drop]
      · exact List.set_eq_take_append_cons_drop.trans (if_pos hpos)

theorem ids_placed {b : PromptBuilder} (h : b.ids.Nodup) (f : PromptFragment) :
    ((placed b f).map fun g => g.id).Nodup ∧ b.ids.Sublist ((placed b f).map fun g => g.id) := by
  rcases placed_cases b f with ⟨before, g, after, hfragments, hid, hplaced⟩ | ⟨hnew, hplaced⟩
  · have hids : (placed b f).map (fun g => g.id) = b.ids := by
      rw [hplaced, ids, hfragments, List.map_append, List.map_append, List.map_cons,
        List.map_cons, hid]
    rw [hids]
    exact ⟨h, List.Sublist.refl _⟩
  · rw [hplaced, List.map_append]
    refine ⟨List.nodup_append.mpr ⟨h, List.nodup_singleton _, ?_⟩, List.sublist_append_left _ _⟩
    intro i hi j hj hij
    rw [List.map_singleton, List.mem_singleton] at hj
    rw [hij, hj] at hi
    exact hnew hi

theorem removeById_eq {b : PromptBuilder} (h : b.ids.Nodup) (id : String) :
    (b.removeById id).fragments = b.fragments.filter fun f => f.id ≠ id := by
  rw [removeById]
  rw [ids] at h
  generalize b.fragments = fragments at h ⊢
  dsimp only
  induction fragments with
  | nil => rfl
  | cons f rest ih =>
      obtain ⟨hf, hrest⟩ := List.nodup_cons.mp h
      by_cases hid : f.id = id
      · have hall : rest.filter (fun g => g.id ≠ id) = rest := by
          refine List.filter_eq_self.mpr fun g hg => decide_eq_true fun hg' => hf ?_
          exact List.mem_map.mpr ⟨g, hg, hg'.trans hid.symm⟩
        rw [List.eraseP_cons, List.filter_cons, hall]
        simp [hid]
      · rw [List.eraseP_cons, List.filter_cons, ih hrest]
        simp [hid]

/-! ## The order of the fragments -/

instance priorityTotal : Std.Total fun f g : PromptFragment => f.priority ≤ g.priority :=
  ⟨fun f g => Int.le_total f.priority g.priority⟩

instance priorityTrans : IsTrans PromptFragment fun f g => f.priority ≤ g.priority :=
  ⟨fun _ _ _ h h' => Int.le_trans h h'⟩

/-- What stands in one order among the ids does so among the fragments. -/
theorem pair_of_ids {l : List PromptFragment} (h : (l.map fun f => f.id).Nodup)
    {f g : PromptFragment} (hf : f ∈ l) (hg : g ∈ l)
    (hpair : [f.id, g.id].Sublist (l.map fun f => f.id)) : [f, g].Sublist l := by
  obtain ⟨fragments, hsub, hmap⟩ := List.sublist_map_iff.mp hpair
  obtain ⟨f', rest, rfl, hf', hmap⟩ := List.map_eq_cons_iff.mp hmap.symm
  obtain ⟨g', rest, rfl, hg', hmap⟩ := List.map_eq_cons_iff.mp hmap
  rw [List.map_eq_nil_iff.mp hmap] at hsub
  have hmem := hsub.subset
  rw [← List.inj_on_of_nodup_map h (hmem List.mem_cons_self) hf hf',
    ← List.inj_on_of_nodup_map h (hmem (List.mem_cons_of_mem _ List.mem_cons_self)) hg hg']
  exact hsub

theorem stable_put {b : PromptBuilder} (h : b.ids.Nodup) (f : PromptFragment) :
    Stable b (b.put f) := by
  intro g hg g' hg' htie hpair
  obtain ⟨hnodup, hsub⟩ := ids_placed h f
  have hmem := (List.mem_insertionSort fun f g : PromptFragment => f.priority ≤ g.priority).mp hg
  have hmem' := (List.mem_insertionSort fun f g : PromptFragment => f.priority ≤ g.priority).mp hg'
  have hplaced := pair_of_ids hnodup hmem hmem' (hpair.trans hsub)
  have hsorted := List.pair_sublist_insertionSort
    (r := fun f g : PromptFragment => f.priority ≤ g.priority) (Int.le_of_eq htie) hplaced
  exact hsorted.map fun f => f.id

theorem stable_filter {b b' : PromptBuilder} (h : b.ids.Nodup) {p : PromptFragment → Bool}
    (heq : b'.fragments = b.fragments.filter p) : Stable b b' := by
  intro f hf g hg _ hpair
  rw [heq] at hf hg
  obtain ⟨hf, hpf⟩ := List.mem_filter.mp hf
  obtain ⟨hg, hpg⟩ := List.mem_filter.mp hg
  have hsub := (pair_of_ids h hf hg hpair).filter p
  rw [List.filter_cons_of_pos hpf, List.filter_cons_of_pos hpg, List.filter_nil, ← heq] at hsub
  exact hsub.map fun f => f.id

theorem stable_fromBase {b : PromptBuilder} (h : b.ids.Nodup) (text : String) :
    Stable b (fromBase text) := by
  intro f hf g hg _ hpair
  rw [List.mem_singleton.mp hf, List.mem_singleton.mp hg] at hpair
  have htwice := h.sublist hpair
  exact absurd htwice (by simp)

/-! ## Truncated fragments -/

/-- A fragment with what there is room for of its content. -/
def cut (f : PromptFragment) : PromptFragment :=
  { f with content :=
      (truncate Agent.PromptBuilder.maxFragmentBytes f.content).getD f.content }

theorem truncated_cut {f : PromptFragment} (h : Cuttable f.content) : Truncated f (cut f) := by
  obtain ⟨s, hs⟩ := cuttable_iff.mp h
  have hcut : (cut f).content = s := by
    rw [cut, hs]
    rfl
  obtain ⟨hpre, hsize⟩ := truncate_eq_some_iff.mp hs
  refine ⟨rfl, ?_, by rw [hcut]; exact hpre⟩
  rw [hcut]
  rcases hsize with hsize | ⟨rfl, hsize⟩
  · exact Nat.le_of_eq hsize
  · exact hsize

theorem cut_eq_self {f : PromptFragment}
    (h : ByteText.size f.content ≤ Agent.PromptBuilder.maxFragmentBytes) : cut f = f := by
  rw [cut, truncate_eq_some_iff.mpr ⟨List.prefix_rfl, .inr ⟨rfl, h⟩⟩]
  rfl

/-- A builder whose fragments are those of another one, truncated. -/
structure Cut (whole b : PromptBuilder) : Prop where
  eq : b.fragments = whole.fragments.map cut
  fits : ∀ f ∈ whole.fragments, Cuttable f.content
  nodup : whole.ids.Nodup
  sorted : whole.fragments.Pairwise fun f g => f.priority ≤ g.priority

variable {whole b : PromptBuilder}

theorem Cut.ids (h : Cut whole b) : b.ids = whole.ids := by
  rw [PromptBuilder.ids, h.eq, List.map_map]
  rfl

theorem Cut.truncated (h : Cut whole b) : List.Forall₂ Truncated whole.fragments b.fragments := by
  rw [h.eq, List.forall₂_map_right_iff, List.forall₂_same]
  exact fun f hf => truncated_cut (h.fits f hf)

theorem Cut.pairwise (h : Cut whole b) :
    b.fragments.Pairwise fun f g => f.priority ≤ g.priority := by
  rw [h.eq, List.pairwise_map]
  exact h.sorted

/-- Where a fragment goes does not depend on the contents. -/
theorem Cut.placed (h : Cut whole b) (f : PromptFragment) :
    placed b (cut f) = (placed whole f).map cut := by
  have hfind : (b.fragments.findIdx? fun g => g.id = (cut f).id) =
      whole.fragments.findIdx? fun g => g.id = f.id := by
    rw [h.eq, List.findIdx?_map]
    rfl
  rw [Hook.placed, Hook.placed, hfind]
  cases whole.fragments.findIdx? fun g => g.id = f.id with
  | none => rw [h.eq, List.map_append, List.map_singleton]
  | some pos => rw [h.eq, List.map_set]

theorem Cut.put (h : Cut whole b) {f : PromptFragment} (hf : Cuttable f.content) :
    Cut (whole.put f) (b.put (cut f)) := by
  obtain ⟨hnodup, -⟩ := ids_placed h.nodup f
  have hperm := List.perm_insertionSort
    (fun f g : PromptFragment => f.priority ≤ g.priority) (Hook.placed whole f)
  refine ⟨?_, fun g hg => ?_, ?_, ?_⟩
  · rw [put_eq, put_eq, h.placed]
    exact (List.map_insertionSort _ _ cut _ fun _ _ _ _ => Iff.rfl).symm
  · have hmem : g ∈ Hook.placed whole f := hperm.mem_iff.mp hg
    rcases placed_cases whole f with ⟨before, g', after, hfragments, -, hplaced⟩ | ⟨-, hplaced⟩
    · rw [hplaced, List.mem_append, List.mem_cons] at hmem
      rcases hmem with hmem | rfl | hmem
      · exact h.fits g (hfragments ▸ List.mem_append_left _ hmem)
      · exact hf
      · exact h.fits g (hfragments ▸ List.mem_append_right _ (List.mem_cons_of_mem _ hmem))
    · rw [hplaced, List.mem_append, List.mem_singleton] at hmem
      rcases hmem with hmem | rfl
      · exact h.fits g hmem
      · exact hf
  · exact (hperm.map fun f => f.id).nodup_iff.mpr hnodup
  · exact List.pairwise_insertionSort _ _

/-- And what is removed does not depend on them either. -/
theorem Cut.filter (h : Cut whole b) {p : PromptFragment → Bool} (hp : ∀ f, p (cut f) = p f) :
    Cut ⟨whole.fragments.filter p⟩ ⟨b.fragments.filter p⟩ := by
  have hsub : (whole.fragments.filter p).Sublist whole.fragments := List.filter_sublist
  refine ⟨?_, fun f hf => h.fits f (hsub.subset hf), ?_, h.sorted.sublist hsub⟩
  · have hcomp : p ∘ cut = p := funext hp
    show b.fragments.filter p = (whole.fragments.filter p).map cut
    rw [h.eq, List.filter_map, hcomp]
  · exact h.nodup.sublist (hsub.map _)

theorem cut_fromBase {text : String}
    (h : ByteText.size text.toList ≤ Agent.PromptBuilder.maxFragmentBytes) :
    Cut (fromBase text) (fromBase text) := by
  refine ⟨?_, fun f hf => ?_, List.nodup_singleton _, List.pairwise_singleton _ _⟩
  · exact congrArg (fun f => [f]) (cut_eq_self h).symm
  · rw [List.mem_singleton.mp hf]
    exact .inl h

/-- An edit that fits does to a builder what it does to one that truncates nothing. -/
theorem Cut.edit (h : Cut whole b) {e : Edit} (he : e.Fits) :
    ∃ b', b.edit e = some b' ∧ Cut (whole.editWhole e) b' ∧ Stable b b' := by
  have hnodup : b.ids.Nodup := h.ids ▸ h.nodup
  have hremove (p : PromptFragment → Bool) (hp : ∀ f, p (cut f) = p f)
      {whole' b' : PromptBuilder} (hwhole' : whole'.fragments = whole.fragments.filter p)
      (hb' : b'.fragments = b.fragments.filter p) : Cut whole' b' ∧ Stable b b' := by
    cases whole'
    cases b'
    subst hwhole' hb'
    exact ⟨h.filter hp, stable_filter hnodup rfl⟩
  cases e with
  | upsertFragment f =>
      obtain ⟨s, hs⟩ := cuttable_iff.mp he
      have hcut : cut f = { f with content := s } := by
        rw [cut, hs]
        rfl
      refine ⟨b.put (cut f), ?_, h.put he, stable_put hnodup _⟩
      rw [PromptBuilder.edit, upsertFragment_eq, hs, hcut]
      rfl
  | removeById id =>
      exact ⟨_, rfl, hremove (fun f => f.id ≠ id) (fun _ => rfl) (removeById_eq h.nodup id)
        (removeById_eq hnodup id)⟩
  | removeBySource source =>
      exact ⟨_, rfl, hremove (fun f => f.source ≠ source) (fun _ => rfl) rfl rfl⟩
  | removeByKind kind => exact ⟨_, rfl, hremove (fun f => f.kind ≠ kind) (fun _ => rfl) rfl rfl⟩
  | replaceAll text => exact ⟨_, rfl, cut_fromBase he, stable_fromBase hnodup text⟩

/-! ## A run -/

theorem Cut.run (h : Cut whole b) {es : List Edit} (hes : ∀ e ∈ es, e.Fits) :
    ∃ b', es.foldlM PromptBuilder.edit b = some b' ∧ Cut (es.foldl editWhole whole) b' := by
  induction es generalizing whole b with
  | nil => exact ⟨b, rfl, h⟩
  | cons e es ih =>
      obtain ⟨b', hedit, hcut, -⟩ := h.edit (hes e List.mem_cons_self)
      obtain ⟨last, hrun, hcut'⟩ := ih hcut fun e he => hes e (List.mem_cons_of_mem _ he)
      refine ⟨last, ?_, hcut'⟩
      rw [List.foldlM_cons, hedit]
      exact hrun

theorem cut_start {base : Option String}
    (h : ∀ text, base = some text →
      ByteText.size text.toList ≤ Agent.PromptBuilder.maxFragmentBytes) :
    Cut (start base) (start base) := by
  cases base with
  | none => exact ⟨rfl, fun _ hf => absurd hf List.not_mem_nil, List.nodup_nil, .nil⟩
  | some text => exact cut_fromBase (h text rfl)

/-- A prompt of one text is within the bound if what is stored of it is. -/
theorem size_of_truncated {text : String} {fragments : List PromptFragment}
    (h : List.Forall₂ Truncated fragments (fromBase text).fragments) :
    ByteText.size text.toList ≤ Agent.PromptBuilder.maxFragmentBytes := by
  cases h with
  | cons htruncated _ => exact htruncated.within

/-- A run that goes on has come that far. -/
theorem exists_of_run {es rest : List Edit} {b last : PromptBuilder}
    (h : (es ++ rest).foldlM PromptBuilder.edit b = some last) :
    ∃ b', es.foldlM PromptBuilder.edit b = some b' := by
  rw [List.foldlM_append] at h
  obtain ⟨b', hrun, -⟩ := Option.bind_eq_some_iff.mp h
  exact ⟨b', hrun⟩

/-- All is well exactly when each text that is stored whole is within the bound, and each
other one can be cut there. -/
theorem wellKept_iff (base : Option String) (ops : List Operation) :
    WellKept base ops ↔
      (∀ text, base = some text →
        ByteText.size text.toList ≤ Agent.PromptBuilder.maxFragmentBytes) ∧
      ∀ op ∈ ops, ∀ e ∈ op.edits, e.Fits := by
  constructor
  · intro h
    refine ⟨fun text htext => ?_, fun op hop e he => ?_⟩
    · subst htext
      exact size_of_truncated (h.reached [] List.nil_prefix _ rfl).2.2
    · obtain ⟨before, after, hsplit⟩ := List.append_of_mem (List.mem_flatMap.mpr ⟨op, hop, he⟩)
      have hsplit : ops.flatMap Operation.edits = before ++ [e] ++ after := by
        rw [hsplit, List.append_assoc]
        rfl
      obtain ⟨last, hrun⟩ := h.returns
      rw [foldlM_perform, hsplit] at hrun
      obtain ⟨b', hrun⟩ := exists_of_run hrun
      obtain ⟨-, -, htruncated⟩ := h.reached _ (hsplit ▸ List.prefix_append _ _) b' hrun
      rw [List.foldlM_append] at hrun
      obtain ⟨b, -, hlast⟩ := Option.bind_eq_some_iff.mp hrun
      have hedit : b.edit e = some b' := (bind_pure _).symm.trans hlast
      cases e with
      | upsertFragment f =>
          rw [PromptBuilder.edit, upsertFragment_eq] at hedit
          obtain ⟨s, hs, -⟩ := Option.map_eq_some_iff.mp hedit
          exact cuttable_iff.mpr ⟨s, hs⟩
      | removeById _ | removeBySource _ | removeByKind _ => trivial
      | replaceAll text =>
          injection hedit with hedit
          rw [← hedit] at htruncated
          exact size_of_truncated htruncated
  · rintro ⟨hbase, hops⟩
    have hfits : ∀ e ∈ ops.flatMap Operation.edits, e.Fits := by
      intro e he
      obtain ⟨op, hop, he⟩ := List.mem_flatMap.mp he
      exact hops op hop e he
    have hstart := cut_start hbase
    refine ⟨?_, fun es hes b hrun => ?_, fun es e hes b b' hrun hedit => ?_⟩
    · obtain ⟨b, hrun, -⟩ := hstart.run hfits
      exact ⟨b, (foldlM_perform ops _).trans hrun⟩
    · obtain ⟨reached, hreached, hcut⟩ := hstart.run fun e he => hfits e (hes.subset he)
      rw [hrun] at hreached
      injection hreached with hsame
      subst hsame
      exact ⟨hcut.ids ▸ hcut.nodup, hcut.pairwise, hcut.truncated⟩
    · obtain ⟨reached, hreached, hcut⟩ := hstart.run fun e he =>
        hfits e (hes.subset (List.mem_append_left _ he))
      rw [hrun] at hreached
      injection hreached with hsame
      subst hsame
      have he := hfits e (hes.subset (List.mem_append_right _ List.mem_cons_self))
      obtain ⟨edited, hedited, -, hstable⟩ := hcut.edit he
      rw [hedit] at hedited
      injection hedited with hsame
      rw [hsame]
      exact hstable

/-! ## Long texts -/

theorem size_replicate (n : Nat) (c : Char) :
    ByteText.size (List.replicate n c) = n * c.utf8Size := by
  induction n with
  | zero => rw [List.replicate_zero, ByteText.size, Nat.zero_mul]
  | succ n ih => rw [List.replicate_succ, ByteText.size, ih, Nat.succ_mul, Nat.add_comm]

/-- No character of three bytes begins at the bound. -/
theorem not_cuttable_replicate {n : Nat} (h : 85334 ≤ n) : ¬ Cuttable (List.replicate n '€') := by
  have hthree : '€'.utf8Size = 3 := by decide
  rintro (hsize | ⟨s, hpre, hsize⟩)
  · rw [size_replicate, hthree, Agent.PromptBuilder.maxFragmentBytes] at hsize
    omega
  · rw [(List.prefix_replicate_iff.mp hpre).2, size_replicate, hthree,
      Agent.PromptBuilder.maxFragmentBytes] at hsize
    omega

theorem not_wellKept_of_not_cuttable {f : PromptFragment} (h : ¬ Cuttable f.content) :
    ¬ WellKept none [.upsertFragment f] := by
  rintro ⟨⟨b, hrun⟩, -, -⟩
  have hperform := (bind_pure _).symm.trans hrun
  rw [perform, upsertFragment_eq] at hperform
  obtain ⟨s, hs, -⟩ := Option.map_eq_some_iff.mp hperform
  exact h (cuttable_iff.mpr ⟨s, hs⟩)

theorem not_wellKept_of_long {n : Nat} (h : 256001 ≤ n) :
    ¬ WellKept (some (String.ofList (List.replicate n 'x'))) [] := by
  rintro ⟨-, hreached, -⟩
  have hsize := size_of_truncated (hreached [] List.nil_prefix _ rfl).2.2
  have hone : 'x'.utf8Size = 1 := by decide
  rw [String.toList_ofList, size_replicate, hone, Agent.PromptBuilder.maxFragmentBytes] at hsize
  omega

/-- A fragment of 85334 times three bytes, and a prompt of one byte more than a fragment
may have. -/
theorem not_wellKept :
    ¬ WellKept none [.upsertFragment
        { id := "notes", content := List.replicate 85334 '€', priority := 10,
          kind := .runtimeInjection, source := .system }] ∧
      ¬ WellKept (some (String.ofList (List.replicate 256001 'x'))) [] :=
  ⟨not_wellKept_of_not_cuttable (not_cuttable_replicate (Nat.le_refl _)),
    not_wellKept_of_long (Nat.le_refl _)⟩

/-! ## Where the fragments stand

Rendering with metadata is rendering, one fragment after the other. What is counted is the
text before a fragment, with the separator and without the fragments that say nothing. -/

/-- The fragments that say something. -/
def saying (b : PromptBuilder) : List PromptFragment :=
  b.fragments.filter fun f => !(trimEnd f.content).isEmpty

/-- The metadata of a fragment lead to what it says. -/
structure Locates (text : List Char) (f : PromptFragment) (r : RenderedFragment) : Prop where
  id : r.id = f.id
  kind : r.kind = f.kind
  source : r.source = f.source
  slice : ByteText.slice text r.byteOffset (r.byteOffset + r.byteLen) = some (trimEnd f.content)

/-- The same, by what stands around it. -/
structure StandsIn (text : List Char) (f : PromptFragment) (r : RenderedFragment) : Prop where
  id : r.id = f.id
  kind : r.kind = f.kind
  source : r.source = f.source
  around : ∃ before after, text = before ++ trimEnd f.content ++ after ∧
    r.byteOffset = ByteText.size before ∧ r.byteLen = ByteText.size (trimEnd f.content)

theorem StandsIn.locates {text : List Char} {f : PromptFragment} {r : RenderedFragment}
    (h : StandsIn text f r) : Locates text f r := by
  obtain ⟨before, after, htext, hoffset, hlen⟩ := h.around
  refine ⟨h.id, h.kind, h.source, ?_⟩
  rw [htext, hoffset, hlen, ← ByteText.size_append]
  exact ByteText.slice_append _ _ _

theorem StandsIn.append {text : List Char} {f : PromptFragment} {r : RenderedFragment}
    (h : StandsIn text f r) (more : List Char) : StandsIn (text ++ more) f r := by
  obtain ⟨before, after, htext, hoffset, hlen⟩ := h.around
  refine ⟨h.id, h.kind, h.source, before, after ++ more, ?_, hoffset, hlen⟩
  rw [htext, List.append_assoc]

/-- What has been rendered of some fragments. -/
structure Rendered (fs : List PromptFragment) (p : RenderedPrompt) : Prop where
  said : ∀ f ∈ fs, trimEnd f.content ≠ []
  text : p.text = ['\n'].intercalate (fs.map fun f => trimEnd f.content)
  stands : List.Forall₂ (StandsIn p.text) fs p.fragments
  within : ∀ r ∈ p.fragments, r.byteOffset + r.byteLen ≤ ByteText.size p.text
  inOrder : p.fragments.Pairwise fun r r' => r.byteOffset + r.byteLen ≤ r'.byteOffset

theorem intercalate_concat {sep x : List Char} {xs : List (List Char)} (h : xs ≠ []) :
    sep.intercalate (xs ++ [x]) = sep.intercalate xs ++ sep ++ x := by
  induction xs with
  | nil => exact absurd rfl h
  | cons y xs ih =>
      cases xs with
      | nil => rw [List.singleton_append, List.intercalate_cons_cons, List.intercalate_singleton,
          List.intercalate_singleton]
      | cons z xs =>
          rw [List.cons_append, List.intercalate_cons_of_ne_nil (by simp),
            ih (List.cons_ne_nil _ _), List.intercalate_cons_cons, List.append_assoc,
            List.append_assoc, List.append_assoc, List.append_assoc, List.append_assoc]

theorem intercalate_ne_nil {sep : List Char} {xs : List (List Char)} (hne : xs ≠ [])
    (h : ∀ x ∈ xs, x ≠ []) : sep.intercalate xs ≠ [] := by
  obtain ⟨x, xs, rfl⟩ := List.exists_cons_of_ne_nil hne
  obtain ⟨c, x, rfl⟩ := List.exists_cons_of_ne_nil (h x List.mem_cons_self)
  cases xs with
  | nil => exact List.cons_ne_nil _ _
  | cons y xs =>
      rw [List.intercalate_cons_cons]
      exact List.cons_ne_nil _ _

/-- What is put in front of a fragment that says something. -/
theorem separator_eq {fs : List PromptFragment} {p : RenderedPrompt} (h : Rendered fs p)
    (f : PromptFragment) :
    (if p.text.isEmpty then p.text else p.text ++ ['\n']) ++ trimEnd f.content =
      ['\n'].intercalate ((fs ++ [f]).map fun f => trimEnd f.content) := by
  rw [List.map_append, List.map_singleton]
  by_cases hnil : fs = []
  · have hempty : p.text = [] := by
      rw [h.text, hnil]
      rfl
    rw [hempty, hnil]
    exact List.intercalate_singleton.symm
  · have hne : p.text ≠ [] := by
      rw [h.text]
      refine intercalate_ne_nil (fun hmap => hnil (List.map_eq_nil_iff.mp hmap)) fun x hx => ?_
      obtain ⟨g, hg, rfl⟩ := List.mem_map.mp hx
      exact h.said g hg
    rw [intercalate_concat fun hmap => hnil (List.map_eq_nil_iff.mp hmap), ← h.text,
      if_neg fun hempty => hne (List.isEmpty_iff.mp hempty)]

theorem Rendered.step {fs : List PromptFragment} {p : RenderedPrompt} (h : Rendered fs p)
    {f : PromptFragment} (hf : trimEnd f.content ≠ []) :
    Rendered (fs ++ [f]) (renderFragment p f) := by
  have htext := separator_eq h f
  obtain ⟨more, hmore⟩ : ∃ more,
      (if p.text.isEmpty then p.text else p.text ++ ['\n']) = p.text ++ more := by
    split
    · exact ⟨[], (List.append_nil _).symm⟩
    · exact ⟨['\n'], rfl⟩
  rw [renderFragment]
  dsimp only
  rw [if_neg fun hempty => hf (List.isEmpty_iff.mp hempty)]
  rw [hmore] at htext ⊢
  have hsize := ByteText.size_append p.text more
  have hsize' := ByteText.size_append (p.text ++ more) (trimEnd f.content)
  refine ⟨fun g hg => ?_, htext, ?_, fun r hr => ?_, ?_⟩
  · rcases List.mem_append.mp hg with hg | hg
    · exact h.said g hg
    · rw [List.mem_singleton.mp hg]
      exact hf
  · refine List.rel_append (h.stands.imp fun g r hstands => ?_) (.cons ?_ .nil)
    · rw [List.append_assoc]
      exact hstands.append _
    · refine ⟨rfl, rfl, rfl, p.text ++ more, [], (List.append_nil _).symm, rfl, ?_⟩
      dsimp only
      omega
  · dsimp only at hr ⊢
    rcases List.mem_append.mp hr with hr | hr
    · have hwithin := h.within r hr
      omega
    · rw [List.mem_singleton.mp hr]
      dsimp only
      omega
  · refine List.pairwise_append.mpr ⟨h.inOrder, List.pairwise_singleton _ _, ?_⟩
    intro r hr r' hr'
    have hwithin := h.within r hr
    rw [List.mem_singleton.mp hr']
    dsimp only
    omega

theorem Rendered.run {fs : List PromptFragment} {p : RenderedPrompt} (h : Rendered fs p)
    (rest : List PromptFragment) :
    Rendered (fs ++ rest.filter fun f => !(trimEnd f.content).isEmpty)
      (rest.foldl renderFragment p) := by
  induction rest generalizing fs p with
  | nil =>
      rw [List.filter_nil, List.append_nil]
      exact h
  | cons f rest ih =>
      rw [List.foldl_cons]
      by_cases hf : trimEnd f.content = []
      · have hskip : renderFragment p f = p := by
          rw [renderFragment]
          exact if_pos (List.isEmpty_iff.mpr hf)
        rw [hskip, List.filter_cons, hf]
        exact ih h
      · have hsays : (!(trimEnd f.content).isEmpty) = true := by
          rw [Bool.not_eq_true', List.isEmpty_eq_false_iff]
          exact hf
        rw [List.filter_cons, if_pos hsays, ← List.singleton_append, ← List.append_assoc]
        exact ih (h.step hf)

theorem said_eq (b : PromptBuilder) :
    b.plain.said = (saying b).map fun f => trimEnd f.content := by
  rw [Agent.PromptBuilder.said, plain, saying, List.map_map, List.filter_map]
  rfl

/-- Rendering with metadata renders the same text, and its metadata lead to what each
fragment says, fragment by fragment and without overlaps. -/
theorem metadata_locate (b : PromptBuilder) :
    String.ofList b.renderWithMetadata.text = b.render ∧
      List.Forall₂ (Locates b.renderWithMetadata.text) (saying b) b.renderWithMetadata.fragments ∧
      b.renderWithMetadata.fragments.Pairwise fun r r' =>
        r.byteOffset + r.byteLen ≤ r'.byteOffset := by
  have hstart : Rendered [] ⟨[], []⟩ :=
    ⟨fun _ hf => absurd hf List.not_mem_nil, rfl, .nil,
      fun _ hr => absurd hr List.not_mem_nil, .nil⟩
  have hrun := hstart.run b.fragments
  rw [List.nil_append] at hrun
  refine ⟨?_, hrun.stands.imp fun _ _ => StandsIn.locates, hrun.inOrder⟩
  rw [PromptBuilder.render, Agent.PromptBuilder.render, said_eq]
  exact congrArg String.ofList hrun.text

end Pandaria.Agent.Hook
