import Mathlib
import RowTyping.Proofs.Renumbering.Display

namespace RowTyping

def Occurrence.name (names : VarNames) : Occurrence → String
  | .type v => names.type v.id
  | .tail r k => names.row k r

inductive Piece where
  | word (s : String)
  | var (o : Occurrence)

namespace Piece

variable (names : VarNames)

def text : Piece → String
  | .word s => s
  | .var o => o.name names

def textAll (ps : List Piece) : String :=
  .join (ps.map (text names))

@[simp]
theorem textAll_nil : textAll names [] = "" := rfl

@[simp]
theorem textAll_cons (p : Piece) (ps : List Piece) : textAll names (p :: ps) = p.text names ++ textAll names ps := by
  simp [textAll]

@[simp]
theorem textAll_append (ps qs : List Piece) : textAll names (ps ++ qs) = textAll names ps ++ textAll names qs := by
  simp [textAll]

theorem textAll_intercalate (sep : String) (pss : List (List Piece)) :
    textAll names ([.word sep].intercalate pss) = sep.intercalate (pss.map (textAll names)) := by
  induction pss with
  | nil => rfl
  | cons ps pss ih =>
      cases pss with
      | nil => simp
      | cons qs pss =>
          rw [List.intercalate_cons_cons, List.map_cons, List.map_cons, String.intercalate_cons_cons, ← List.map_cons, ← ih,
            textAll_append, textAll_append, textAll_cons, textAll_nil, String.append_empty, text]

end Piece

namespace Row

def tailPieces (r : Row) : List Piece :=
  match r.rest with
  | none => []
  | some id => [.word (if r.isEmpty then "" else " | "), .var (.tail id r.kind)]

def effectsPieces (r : Row) : List Piece :=
  .word ("[" ++ ", ".intercalate r.labels) :: r.tailPieces ++ [.word "]"]

end Row

def Effects.arrowPieces : Effects → List Piece
  | none => [.word " -> "]
  | some r => if r.isEmpty && r.isClosed then [.word " -> "] else .word " -" :: r.effectsPieces ++ [.word "> "]

namespace Ty

mutual

def pieces : Ty → List Piece
  | .var v => [.var (.type v)]
  | .con name => [.word name]
  | .app h as => pieces h ++ .word "(" :: [.word ", "].intercalate (piecesAll as) ++ [.word ")"]
  | .list a => .word "List(" :: pieces a ++ [.word ")"]
  | .tuple as => .word "#(" :: [.word ", "].intercalate (piecesAll as) ++ [.word ")"]
  | .fn ps e r =>
      .word "(" :: [.word ", "].intercalate (piecesAll ps) ++ .word ")" :: Effects.arrowPieces e ++ pieces r
  | .record r => piecesRecord r
termination_by structural t => t

def piecesAll : List Ty → List (List Piece)
  | [] => []
  | t :: ts => pieces t :: piecesAll ts
termination_by structural ts => ts

def piecesRecord : Row → List Piece
  | ⟨k, fs, rest⟩ =>
      if fs.isEmpty && rest.isNone then [.word "\x7b\x7d"]
      else .word "\x7b " :: [.word ", "].intercalate (piecesFields fs) ++ Row.tailPieces ⟨k, fs, rest⟩ ++ [.word " \x7d"]
termination_by structural r => r

def piecesFields : List (Label × Ty) → List (List Piece)
  | [] => []
  | (l, t) :: fs => (.word (l ++ ": ") :: pieces t) :: piecesFields fs
termination_by structural fs => fs

end

theorem piecesAll_eq (ts : List Ty) : piecesAll ts = ts.map pieces := by
  induction ts with
  | nil => rfl
  | cons t ts ih => rw [piecesAll, ih, List.map_cons]

theorem piecesFields_eq (fs : List (Label × Ty)) : piecesFields fs = fs.map fun f => .word (f.1 ++ ": ") :: f.2.pieces := by
  induction fs with
  | nil => rfl
  | cons f fs ih => rw [piecesFields, ih, List.map_cons]

variable {names : VarNames}

theorem tailText_eq (r : Row) : r.tailText names = Piece.textAll names r.tailPieces := by
  rw [Row.tailText, Row.tailPieces]
  cases r.rest <;> simp [Piece.text, Occurrence.name]

theorem effectsText_eq (r : Row) : r.effectsText names = Piece.textAll names r.effectsPieces := by
  simp [Row.effectsText, Row.effectsPieces, tailText_eq, Piece.text, String.append_assoc]

theorem arrow_eq (e : Effects) : Effects.arrow names e = Piece.textAll names (Effects.arrowPieces e) := by
  cases e with
  | none => simp [Effects.arrow, Effects.arrowPieces, Piece.text]
  | some r =>
      rw [Effects.arrow, Effects.arrowPieces]
      split <;> simp [Piece.text, effectsText_eq, String.append_assoc]

theorem write_eq_both : (∀ t : Ty, t.write names = Piece.textAll names t.pieces) ∧
    ∀ r : Row, writeRecord names r = Piece.textAll names (piecesRecord r) := by
  apply Ty.induct_rows
  case var => exact fun v => by simp [write, pieces, Piece.text, Occurrence.name]
  case con => exact fun name => by simp [write, pieces, Piece.text]
  case app =>
    intro h as hh has
    have hall : as.map (write names) = as.map (Piece.textAll names ∘ pieces) := List.map_congr_left has
    simp [write, pieces, writeAll_eq, piecesAll_eq, Piece.textAll_intercalate, Piece.text, hh, hall, String.append_assoc]
  case list =>
    intro a ha
    simp [write, pieces, Piece.text, ha, String.append_assoc]
  case tuple =>
    intro as has
    have hall : as.map (write names) = as.map (Piece.textAll names ∘ pieces) := List.map_congr_left has
    simp [write, pieces, writeAll_eq, piecesAll_eq, Piece.textAll_intercalate, Piece.text, hall, String.append_assoc]
  case fn =>
    intro ps e r hps _ hr
    have hall : ps.map (write names) = ps.map (Piece.textAll names ∘ pieces) := List.map_congr_left hps
    simp [write, pieces, writeAll_eq, piecesAll_eq, Piece.textAll_intercalate, Piece.text, arrow_eq, hr, hall, String.append_assoc]
  case record => exact fun r hr => hr
  case row =>
    intro k fs rest hfs
    have hall : fs.map (fun f => f.1 ++ ": " ++ f.2.write names) =
        fs.map (Piece.textAll names ∘ fun f => .word (f.1 ++ ": ") :: f.2.pieces) :=
      List.map_congr_left fun f hf => by simp [Piece.text, hfs f hf]
    rw [writeRecord, piecesRecord, writeFields_eq, hall]
    split
    · simp [Piece.text]
    · simp [piecesFields_eq, Piece.textAll_intercalate, Piece.text, tailText_eq, String.append_assoc]

section Occurrences

variable {o : Occurrence}

theorem mem_of_mem_intercalate {sep : String} {pss : List (List Piece)} (h : .var o ∈ [Piece.word sep].intercalate pss) :
    ∃ ps ∈ pss, .var o ∈ ps := by
  induction pss with
  | nil => exact absurd h List.not_mem_nil
  | cons ps pss ih =>
      cases pss with
      | nil => exact ⟨ps, List.mem_singleton_self ps, by simpa using h⟩
      | cons qs pss =>
          rw [List.intercalate_cons_cons, List.mem_append, List.mem_append] at h
          rcases h with (h | h) | h
          · exact ⟨ps, List.mem_cons_self, h⟩
          · simp at h
          · obtain ⟨ps', hmem, h⟩ := ih h
            exact ⟨ps', List.mem_cons_of_mem ps hmem, h⟩

theorem mem_of_mem_tailPieces {r : Row} (h : .var o ∈ r.tailPieces) : ∃ id ∈ r.rest, o = .tail id r.kind := by
  rw [Row.tailPieces] at h
  cases hrest : r.rest with
  | none => simp [hrest] at h
  | some id => exact ⟨id, rfl, by simpa [hrest] using h⟩

theorem mem_of_mem_arrowPieces {e : Effects} (h : .var o ∈ Effects.arrowPieces e) : ∃ r ∈ e, o ∈ r.occurrences := by
  cases e with
  | none => simp [Effects.arrowPieces] at h
  | some r =>
      refine ⟨r, rfl, ?_⟩
      have htail : .var o ∈ r.tailPieces := by
        rw [Effects.arrowPieces] at h
        split at h
        · simp at h
        · simpa [Row.effectsPieces] using h
      obtain ⟨k, fs, rest⟩ := r
      exact Row.mem_occurrences.mpr (.inr (mem_of_mem_tailPieces htail))

theorem mem_occurrences_of_pieces_both : (∀ t : Ty, .var o ∈ t.pieces → o ∈ t.occurrences) ∧
    ∀ r : Row, .var o ∈ piecesRecord r → o ∈ r.occurrences := by
  apply Ty.induct_rows
  case var => exact fun v h => by simpa [pieces, mem_occurrences_var] using h
  case con => exact fun name h => by simp [pieces] at h
  case app =>
    intro f as hf has h
    rw [mem_occurrences_app]
    simp only [pieces, piecesAll_eq, List.mem_append, List.mem_cons, reduceCtorEq, List.not_mem_nil, or_false, false_or] at h
    rcases h with h | h
    · exact .inl (hf h)
    · obtain ⟨_, hps, h⟩ := mem_of_mem_intercalate h
      obtain ⟨a, ha, rfl⟩ := List.mem_map.mp hps
      exact .inr ⟨a, ha, has a ha h⟩
  case list => exact fun a ha h => ha (by simpa [pieces] using h)
  case tuple =>
    intro as has h
    rw [mem_occurrences_tuple]
    simp only [pieces, piecesAll_eq, List.mem_append, List.mem_cons, reduceCtorEq, List.not_mem_nil, or_false, false_or] at h
    obtain ⟨_, hps, h⟩ := mem_of_mem_intercalate h
    obtain ⟨a, ha, rfl⟩ := List.mem_map.mp hps
    exact ⟨a, ha, has a ha h⟩
  case fn =>
    intro ps e r hps _ hr h
    rw [mem_occurrences_fn]
    simp only [pieces, piecesAll_eq, List.mem_append, List.mem_cons, reduceCtorEq, false_or] at h
    rcases h with (h | h) | h
    · obtain ⟨_, hmem, h⟩ := mem_of_mem_intercalate h
      obtain ⟨p, hp, rfl⟩ := List.mem_map.mp hmem
      exact .inl ⟨p, hp, hps p hp h⟩
    · exact .inr (.inl (mem_of_mem_arrowPieces h))
    · exact .inr (.inr (hr h))
  case record => exact fun r hr h => hr h
  case row =>
    intro k fs rest hfs h
    rw [piecesRecord] at h
    split at h
    · simp at h
    · simp only [piecesFields_eq, List.mem_append, List.mem_cons, reduceCtorEq, List.not_mem_nil, or_false, false_or] at h
      rcases h with h | h
      · obtain ⟨_, hmem, h⟩ := mem_of_mem_intercalate h
        obtain ⟨f, hf, rfl⟩ := List.mem_map.mp hmem
        exact Row.mem_occurrences.mpr (.inl ⟨f, hf, hfs f hf (by simpa using h)⟩)
      · exact Row.mem_occurrences.mpr (.inr (mem_of_mem_tailPieces h))

end Occurrences

end Ty

namespace VarNames

theorem toList_letter (i : Nat) :
    (letter i).toList = Char.ofNat ('a'.toNat + i % 26) :: if i / 26 = 0 then [] else (i / 26).repr.toList := by
  rw [letter]
  split <;> simp

theorem letter_head_inj : ∀ i < 26, ∀ j < 26, Char.ofNat ('a'.toNat + i) = Char.ofNat ('a'.toNat + j) → i = j := by
  decide

theorem letter_head_not_digit : ∀ i < 26, (Char.ofNat ('a'.toNat + i)).isDigit = false := by
  decide

theorem letter_injective : letter.Injective := by
  intro i j h
  have hlist := congrArg String.toList h
  rw [toList_letter, toList_letter, List.cons.injEq] at hlist
  have hhead : i % 26 = j % 26 := letter_head_inj _ (Nat.mod_lt i (by decide)) _ (Nat.mod_lt j (by decide)) hlist.1
  have hround : i / 26 = j / 26 := by
    by_cases hi : i / 26 = 0 <;> by_cases hj : j / 26 = 0
    · rw [hi, hj]
    · exact absurd hlist.2 (by simp [hi, hj])
    · exact absurd hlist.2 (by simp [hi, hj])
    · rw [if_neg hi, if_neg hj, String.toList_inj] at hlist
      exact Nat.repr_injective hlist.2
  rw [← Nat.div_add_mod i 26, ← Nat.div_add_mod j 26, hhead, hround]

structure Distinguish (names : VarNames) (os : List Occurrence) : Prop where
  type : ∀ v w, .type v ∈ os → .type w ∈ os → (names.type v.id = names.type w.id ↔ v.id = w.id)
  tail : ∀ r k r' k', .tail r k ∈ os → .tail r' k' ∈ os →
    (names.row k r = names.row k' r' ↔ k.isEffectRow = k'.isEffectRow ∧ r = r')
  apart : ∀ v r k, .type v ∈ os → .tail r k ∈ os → names.type v.id ≠ names.row k r

theorem isDigit_of_mem_letter {i : Nat} {c : Char} (h : c ∈ (letter i).toList.tail) : c.isDigit := by
  rw [toList_letter, List.tail_cons] at h
  split at h
  · exact absurd h List.not_mem_nil
  · exact Nat.isDigit_of_mem_toDigits (by decide) (by decide) (Nat.toList_repr ▸ h)

theorem letter_ne_tail {i j : Nat} {c : String} (hc : c.length = 1) : letter i ≠ c ++ letter j := by
  intro h
  obtain ⟨d, hd⟩ := List.length_eq_one_iff.mp (String.length_toList.trans hc)
  have htail := congrArg (fun s : String => s.toList.tail) h
  simp only [String.toList_append, hd, List.cons_append, List.nil_append, List.tail_cons, toList_letter j] at htail
  have hdigit := isDigit_of_mem_letter (htail ▸ List.mem_cons_self)
  rw [letter_head_not_digit _ (Nat.mod_lt j (by decide))] at hdigit
  cases hdigit

theorem tail_letter_inj {a b : Bool} {i j : Nat} :
    (if a then "e" else "r") ++ letter i = (if b then "e" else "r") ++ letter j ↔ a = b ∧ i = j := by
  have hhead (s s' : String) : "e" ++ s ≠ "r" ++ s' := fun h =>
    absurd (congrArg (fun s : String => s.toList.head?) h) (by simp)
  cases a <;> cases b
  · simp [letter_injective.eq_iff]
  · exact iff_of_false (hhead _ _).symm (by simp)
  · exact iff_of_false (hhead _ _) (by simp)
  · simp [letter_injective.eq_iff]

theorem distinguish_ofTypes (ts : List Ty) : (ofTypes ts).Distinguish (ts.flatMap Ty.occurrences) := by
  have htype {v : TypeVar} (hv : .type v ∈ ts.flatMap Ty.occurrences) : .type v.id ∈ ts.flatMap Ty.vars := by
    obtain ⟨t, ht, hv⟩ := List.mem_flatMap.mp hv
    exact List.mem_flatMap.mpr ⟨t, ht, Ty.mem_vars_iff.mpr ⟨_, hv, rfl⟩⟩
  have htail {r : RowVarId} {k : Kind} (hr : .tail r k ∈ ts.flatMap Ty.occurrences) : .row r ∈ ts.flatMap Ty.vars := by
    obtain ⟨t, ht, hr⟩ := List.mem_flatMap.mp hr
    exact List.mem_flatMap.mpr ⟨t, ht, Ty.mem_vars_iff.mpr ⟨_, hr, rfl⟩⟩
  refine ⟨fun v w hv hw => ?_, fun r k r' k' hr hr' => ?_, fun v r k hv hr => ?_⟩
  · rw [type_ofTypes (htype hv), type_ofTypes (htype hw), letter_injective.eq_iff,
      place_inj (mem_typeIds.mpr (htype hv)) (mem_typeIds.mpr (htype hw))]
  · rw [row_ofTypes (htail hr), row_ofTypes (htail hr'), tail_letter_inj,
      place_inj (mem_rowIds.mpr (htail hr)) (mem_rowIds.mpr (htail hr'))]
  · rw [type_ofTypes (htype hv), row_ofTypes (htail hr)]
    exact letter_ne_tail (by split <;> rfl)

end VarNames

namespace Ty

theorem displayPair_shape (t u : Ty) :
    (∀ π : Renumbering, π.AscendsOn ([t, u].flatMap vars) → displayPair (t.renumber π) (u.renumber π) = displayPair t u) ∧
      displayPair t u = (Piece.textAll (.ofTypes [t, u]) t.pieces, Piece.textAll (.ofTypes [t, u]) u.pieces) ∧
      (∀ o, .var o ∈ t.pieces ++ u.pieces → o ∈ [t, u].flatMap occurrences) ∧
      (VarNames.ofTypes [t, u]).Distinguish ([t, u].flatMap occurrences) := by
  refine ⟨fun π hπ => displayPair_renumber_on hπ, ?_, fun o ho => ?_, VarNames.distinguish_ofTypes [t, u]⟩
  · rw [displayPair, write_eq_both.1, write_eq_both.1]
  · rcases List.mem_append.mp ho with h | h
    · exact List.mem_flatMap.mpr ⟨t, by simp, mem_occurrences_of_pieces_both.1 t h⟩
    · exact List.mem_flatMap.mpr ⟨u, by simp, mem_occurrences_of_pieces_both.1 u h⟩

theorem displayPair_shape_lowered :
    let t : Ty := .fn [.var ⟨3, .star⟩] (some ⟨.effectRow, [("Console", .con "Unit")], some 7⟩) (.list (.var ⟨9, .star⟩))
    let u : Ty := .record ⟨.recordRow, [("x", .var ⟨9, .star⟩)], some 2⟩
    let π : Renumbering := ⟨(· - 3), (· - 2)⟩
    π.AscendsOn ([t, u].flatMap vars) ∧ displayPair (t.renumber π) (u.renumber π) = displayPair t u ∧
      displayPair t u = ("(a) -[Console | eb]> List(b)", "\x7b x: b | ra \x7d") := by
  intro t u π
  have hvars : [t, u].flatMap vars = [.type 3, .row 7, .type 9, .type 9, .row 2] := rfl
  have htype : ∀ id, .type id ∈ [t, u].flatMap vars → 3 ≤ id := by simp [hvars]
  have hrow : ∀ id, .row id ∈ [t, u].flatMap vars → 2 ≤ id := by simp [hvars]
  have hπ : π.AscendsOn ([t, u].flatMap vars) :=
    ⟨fun a ha b _ hab => Nat.sub_lt_sub_right (htype a ha) hab, fun a ha b _ hab => Nat.sub_lt_sub_right (hrow a ha) hab⟩
  exact ⟨hπ, (displayPair_shape t u).1 π hπ, by decide +kernel⟩

end Ty

end RowTyping
