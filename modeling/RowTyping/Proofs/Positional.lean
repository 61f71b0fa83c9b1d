import Mathlib.Data.List.Basic
import RowTyping.Infer.Form
import RowTyping.Proofs.Inference.Ensures
import RowTyping.Proofs.Merge

namespace RowTyping

section Splitting

variable {α : Type} [BEq α] [LawfulBEq α] {a : α}

theorem not_mem_of_mem_splitOn {p xs : List α} (h : p ∈ xs.splitOn a) : a ∉ p := by
  induction xs generalizing p with
  | nil =>
      rw [List.splitOn_nil, List.mem_singleton] at h
      exact h ▸ List.not_mem_nil
  | cons x xs ih =>
      obtain ⟨q, qs, hq⟩ := List.exists_cons_of_ne_nil (List.splitOn_ne_nil a xs)
      have hpieces : ∀ p' ∈ q :: qs, a ∉ p' := fun p' hp' => ih (hq ▸ hp')
      obtain ⟨hfirst, hothers⟩ := List.forall_mem_cons.mp hpieces
      rw [List.splitOn_cons_eq_if_modifyHead, hq] at h
      split at h
      next =>
        rcases List.mem_cons.mp h with rfl | h
        · exact List.not_mem_nil
        · exact hpieces p h
      next hx =>
        rw [List.modifyHead_cons] at h
        rcases List.mem_cons.mp h with rfl | h
        · rintro (_ | ⟨_, hmem⟩)
          · exact hx BEq.rfl
          · exact hfirst hmem
        · exact hothers p h

theorem splitOn_intercalate_flatMap {ls : List (List α)} (hls : ls ≠ []) :
    ([a].intercalate ls).splitOn a = ls.flatMap (List.splitOn a) := by
  induction ls with
  | nil => exact absurd rfl hls
  | cons l ls ih =>
      cases ls with
      | nil => simp
      | cons l' ls =>
          rw [List.intercalate_cons_cons, List.append_assoc, List.singleton_append, List.splitOn_append_cons_self,
            ih (List.cons_ne_nil _ _), List.flatMap_cons (x := l)]

end Splitting

namespace Label

def pieces (l : Label) : List Label :=
  (l.toList.splitOn ',').map String.ofList

theorem not_mem_of_mem_pieces {l p : Label} (h : p ∈ l.pieces) : ',' ∉ p.toList := by
  obtain ⟨q, hq, rfl⟩ := List.mem_map.mp h
  rw [String.toList_ofList]
  exact not_mem_of_mem_splitOn hq

theorem pieces_eq {l : Label} (h : ',' ∉ l.toList) : l.pieces = [l] := by
  rw [pieces, List.splitOn_eq_singleton h, List.map_singleton, String.ofList_toList]

theorem flatMap_pieces {labels : List Label} (h : ∀ l ∈ labels, ',' ∉ l.toList) : labels.flatMap pieces = labels := by
  induction labels with
  | nil => rfl
  | cons l labels ih =>
      obtain ⟨hl, hlabels⟩ := List.forall_mem_cons.mp h
      rw [List.flatMap_cons, pieces_eq hl, ih hlabels, List.singleton_append]

end Label

structure PlainLabels (labels : List Label) : Prop where
  unsplit : ∀ l ∈ labels, ',' ∉ l.toList
  listed : labels ≠ [""]

namespace OrderedMap

variable {κ α : Type} [BEq κ] [LawfulBEq κ] [DecidableEq κ]

theorem idxOf?_keys_bind (m : OrderedMap κ α) (k : κ) : (m.keys.idxOf? k).bind (fun i => m.values[i]?) = m.find? k := by
  induction m with
  | nil => rfl
  | cons e m ih =>
      rw [find?_cons, keys, values, List.map_cons, List.map_cons, List.idxOf?_cons]
      by_cases hk : k = e.1
      · rw [if_pos (beq_iff_eq.mpr hk.symm), if_pos hk]
        rfl
      · rw [if_neg fun h => hk (beq_iff_eq.mp h).symm, if_neg hk, ← ih, Option.bind_map]
        rfl

end OrderedMap

namespace Ty

def positionalField? (t : Ty) (l : Label) : Option Ty :=
  t.positionalLabels?.bind fun labels => (labels.idxOf? l).bind fun i => t.arguments[i]?

theorem intercalate_eq_nil_iff (labels : List Label) :
    [','].intercalate (labels.map String.toList) = [] ↔ labels = [] ∨ labels = [""] := by
  match labels with
  | [] => simp
  | [l] => simp
  | l :: l' :: labels => simp [List.intercalate_cons_cons]

theorem labelsOfName?_positionalName (labels : List Label) :
    labelsOfName? (positionalName labels) = some (if labels = [""] then [] else labels.flatMap Label.pieces) := by
  let inner := [','].intercalate (labels.map String.toList)
  have hopened : positionalOpen.isPrefixOf? (positionalName labels).toList = some (inner ++ positionalClose) := by
    rw [List.isPrefixOf?_eq_some_iff_append_eq, positionalName, String.toList_ofList, List.append_assoc]
  have hclosed : positionalClose.isSuffixOf? (inner ++ positionalClose) = some inner :=
    List.isSuffixOf?_eq_some_iff_append_eq.mpr rfl
  have hread : labelsOfName? (positionalName labels) =
      if inner.isEmpty then some [] else some ((inner.splitOn ',').map String.ofList) := by
    simp only [labelsOfName?, hopened, hclosed, Option.bind_eq_bind, Option.bind_some]
  have hempty : inner.isEmpty = true ↔ labels = [] ∨ labels = [""] :=
    List.isEmpty_iff.trans (intercalate_eq_nil_iff labels)
  rw [hread]
  by_cases hnil : labels = []
  · subst hnil
    rfl
  by_cases hlone : labels = [""]
  · rw [if_pos (hempty.mpr (.inr hlone)), if_pos hlone]
  · have hls : labels.map String.toList ≠ [] := fun h => hnil (List.map_eq_nil_iff.mp h)
    rw [if_neg fun h => (hempty.mp h).elim hnil hlone, if_neg hlone, splitOn_intercalate_flatMap hls, List.flatMap_map, List.map_flatMap]
    rfl

theorem positionalLabels?_positionalRecord (fields : OrderedMap Label Ty) :
    (positionalRecord fields).positionalLabels? = some (if fields.keys = [""] then [] else fields.keys.flatMap Label.pieces) :=
  labelsOfName?_positionalName fields.keys

variable {fields : OrderedMap Label Ty}

theorem positionalLabels?_of_plain (h : PlainLabels fields.keys) : (positionalRecord fields).positionalLabels? = some fields.keys := by
  rw [positionalLabels?_positionalRecord, if_neg h.listed, Label.flatMap_pieces h.unsplit]

theorem positionalField?_of_plain (h : PlainLabels fields.keys) (l : Label) :
    (positionalRecord fields).positionalField? l = fields.find? l := by
  rw [positionalField?, positionalLabels?_of_plain h, Option.bind_some]
  exact OrderedMap.idxOf?_keys_bind fields l

theorem plain_of_positionalField? (h : ∀ l ∈ fields.keys, (positionalRecord fields).positionalField? l ≠ none) :
    PlainLabels fields.keys := by
  have hlisted : fields.keys ≠ [""] := by
    intro hlone
    have := h "" (hlone ▸ List.mem_singleton_self _)
    rw [positionalField?, positionalLabels?_positionalRecord, if_pos hlone] at this
    exact this rfl
  refine ⟨fun l hl hcomma => h l hl ?_, hlisted⟩
  have hlost : l ∉ fields.keys.flatMap Label.pieces := by
    intro hmem
    obtain ⟨l', -, hpiece⟩ := List.mem_flatMap.mp hmem
    exact Label.not_mem_of_mem_pieces hpiece hcomma
  rw [positionalField?, positionalLabels?_positionalRecord, if_neg hlisted, Option.bind_some, List.idxOf?_eq_none_iff.mpr hlost]
  rfl

theorem positionalRecord_reads_back (hfields : fields.Ascending) :
    fields.keys.Pairwise (· < ·) ∧
    ((positionalRecord fields).positionalLabels? = some fields.keys ↔ PlainLabels fields.keys) ∧
    ((∀ l, (positionalRecord fields).positionalField? l = fields.find? l) ↔ PlainLabels fields.keys) := by
  have hfinds : (∀ l, (positionalRecord fields).positionalField? l = fields.find? l) → PlainLabels fields.keys := by
    intro h
    refine plain_of_positionalField? fun l hl => ?_
    obtain ⟨t, ht⟩ := OrderedMap.mem_keys_iff.mp hl
    rw [h l, ht]
    exact Option.some_ne_none t
  refine ⟨List.pairwise_map.mpr (hfields.imp compareOfLessAndEq_eq_lt.mp), ⟨fun h => hfinds fun l => ?_, positionalLabels?_of_plain⟩,
    hfinds, positionalField?_of_plain⟩
  rw [positionalField?, h, Option.bind_some]
  exact OrderedMap.idxOf?_keys_bind fields l

theorem positionalRecord_reads_back_person :
    let fields : OrderedMap Label Ty := [("age", .con "Int"), ("name", .con "String")]
    fields.Ascending ∧ (positionalRecord fields).positionalLabels? = some ["age", "name"] ∧
      ∀ l, (positionalRecord fields).positionalField? l = fields.find? l := by
  intro fields
  have hfields : fields.Ascending := by decide
  have hplain : PlainLabels fields.keys := ⟨by decide, by decide⟩
  obtain ⟨-, hlabels, hfind⟩ := positionalRecord_reads_back hfields
  exact ⟨hfields, hlabels.mpr hplain, hfind.mpr hplain⟩

theorem positionalRecord_splits_label :
    let fields : OrderedMap Label Ty := [("a,b", .con "Int")]
    fields.Ascending ∧ (positionalRecord fields).positionalLabels? = some ["a", "b"] ∧ fields.find? "a,b" = some (.con "Int") ∧
      (positionalRecord fields).positionalField? "a,b" = none := by
  intro fields
  have hread : (positionalRecord fields).positionalLabels? = some ["a", "b"] := by
    rw [positionalLabels?_positionalRecord]
    decide
  refine ⟨by decide, hread, rfl, ?_⟩
  rw [positionalField?, hread]
  decide

end Ty

namespace InferM

variable {record : Ty} {fields : OrderedMap Label Ty}

theorem fieldType_positionalRecord {c : Context} (id : NodeId) (name : String) (hplain : PlainLabels fields.keys)
    (hrecord : c.flush.apply record = .positionalRecord fields) :
    (fieldType id record name).run c = match fields.find? name with
      | some t => (t, c.flush)
      | none => (missingField id (.positionalRecord fields) name).run c.flush := by
  have hlabels := Ty.positionalLabels?_of_plain hplain
  have hfind := Ty.positionalField?_of_plain hplain name
  rw [Ty.positionalField?, hlabels, Option.bind_some] at hfind
  have hensures : Ensures (fieldType id record name) c fun t c' => (t, c') = match fields.find? name with
      | some t => (t, c.flush)
      | none => (missingField id (.positionalRecord fields) name).run c.flush := by
    refine .bind (Q := fun _ c' => c' = c.flush) rfl fun _ c' hc' => ?_
    subst hc'
    refine .bind (Q := fun t c' => t = Ty.positionalRecord fields ∧ c' = c.flush) ⟨hrecord, rfl⟩ fun t c' h => ?_
    obtain ⟨rfl, rfl⟩ := h
    rw [hlabels]
    dsimp only
    rw [hfind]
    cases fields.find? name with
    | none => exact rfl
    | some t => exact ensures_pure rfl
  exact hensures

end InferM

end RowTyping
