import Mathlib.Data.Finset.Card
import Mathlib.Order.Interval.Set.Monotone
import RowTyping.Proofs.Renumbering.Reading
import RowTyping.Proofs.Unification.Run
import RowTyping.Ty.Text

namespace RowTyping

variable {π : Renumbering} {names names' : VarNames}

def VarNames.Agree (π : Renumbering) (names names' : VarNames) : Var → Prop
  | .type id => names'.type (π.type id) = names.type id
  | .row id => ∀ kind, names'.row kind (π.row id) = names.row kind id

theorem Row.mem_vars_of_rest {r : Row} {id : RowVarId} (h : id ∈ r.rest) : .row id ∈ r.vars := by
  cases r
  exact mem_vars.mpr (.inr ⟨id, h, rfl⟩)

theorem Row.tailText_renumber {r : Row} (h : ∀ id ∈ r.rest, VarNames.Agree π names names' (.row id)) :
    (r.renumber π).tailText names' = r.tailText names := by
  rw [tailText, tailText, renumber_rest, isEmpty_renumber, renumber_kind]
  cases hrest : r.rest with
  | none => rfl
  | some id => exact congrArg ((if r.isEmpty then "" else " | ") ++ ·) (h id hrest r.kind)

theorem Row.effectsText_renumber {r : Row} (h : ∀ id ∈ r.rest, VarNames.Agree π names names' (.row id)) :
    (r.renumber π).effectsText names' = r.effectsText names := by
  rw [effectsText, effectsText, labels_renumber, tailText_renumber h]

namespace Ty

theorem writeAll_eq (ts : List Ty) : writeAll names ts = ts.map (write names) := by
  induction ts with
  | nil => rfl
  | cons t ts ih => rw [writeAll, ih, List.map_cons]

theorem writeFields_eq (fs : List (Label × Ty)) : writeFields names fs = fs.map fun f => f.1 ++ ": " ++ write names f.2 := by
  induction fs with
  | nil => rfl
  | cons f fs ih => rw [writeFields, ih, List.map_cons]

theorem write_renumber_both :
    (∀ t : Ty, (∀ v ∈ t.vars, VarNames.Agree π names names' v) → (t.renumber π).write names' = t.write names) ∧
      ∀ r : Row, (∀ v ∈ r.vars, VarNames.Agree π names names' v) → writeRecord names' (r.renumber π) = writeRecord names r := by
  apply Ty.induct_rows
  case var => exact fun v h => h _ (mem_vars_var.mpr rfl)
  case con => exact fun name _ => rfl
  case app =>
    intro f as hf has h
    have hmap : (as.map (renumber π)).map (write names') = as.map (write names) :=
      map_map_congr fun a ha => has a ha fun v hv => h v (mem_vars_app.mpr (.inr ⟨a, ha, hv⟩))
    rw [renumber_app, write, write, hf fun v hv => h v (mem_vars_app.mpr (.inl hv)), writeAll_eq, writeAll_eq, hmap]
  case list =>
    intro a ha h
    rw [renumber_list, write, write, ha h]
  case tuple =>
    intro as has h
    have hmap : (as.map (renumber π)).map (write names') = as.map (write names) :=
      map_map_congr fun a ha => has a ha fun v hv => h v (mem_vars_tuple.mpr ⟨a, ha, hv⟩)
    rw [renumber_tuple, write, write, writeAll_eq, writeAll_eq, hmap]
  case fn =>
    intro ps e r hps he hr h
    have hmap : (ps.map (renumber π)).map (write names') = ps.map (write names) :=
      map_map_congr fun p hp => hps p hp fun v hv => h v (mem_vars_fn.mpr (.inl ⟨p, hp, hv⟩))
    have harrow : Effects.arrow names' (Effects.renumber π e) = Effects.arrow names e := by
      cases e with
      | none => rfl
      | some row =>
          have htail : ∀ id ∈ row.rest, VarNames.Agree π names names' (.row id) := fun id hid =>
            h _ (mem_vars_fn.mpr (.inr (.inl ⟨row, rfl, Row.mem_vars_of_rest hid⟩)))
          change (if ((row.renumber π).isEmpty && (row.renumber π).isClosed) = true then " -> "
            else " -" ++ (row.renumber π).effectsText names' ++ "> ") = _
          rw [Row.isEmpty_renumber, Row.isClosed_renumber, Row.effectsText_renumber htail]
          rfl
    rw [renumber_fn, write, write, hr fun v hv => h v (mem_vars_fn.mpr (.inr (.inr hv))), writeAll_eq, writeAll_eq, hmap, harrow]
  case record =>
    intro r hr h
    rw [renumber_record, write, write, hr h]
  case row =>
    intro k fs rest hfs h
    have hfields : (fs.map fun f => (f.1, f.2.renumber π)).map (fun f => f.1 ++ ": " ++ write names' f.2) =
        fs.map fun f => f.1 ++ ": " ++ write names f.2 :=
      map_map_congr fun f hf => congrArg _ (hfs f hf fun v hv => h v (Row.mem_vars.mpr (.inl ⟨f, hf, hv⟩)))
    have htail := Row.tailText_renumber (r := ⟨k, fs, rest⟩) fun id hid => h _ (Row.mem_vars.mpr (.inr ⟨id, hid, rfl⟩))
    rw [Row.renumber_mk] at htail ⊢
    rw [writeRecord, writeRecord, htail, writeFields_eq, writeFields_eq, OrderedMap.mapValues, hfields, List.isEmpty_map,
      Option.isNone_map]

end Ty

structure Renumbering.AscendsOn (π : Renumbering) (vs : List Var) : Prop where
  type : StrictMonoOn π.type {id | .type id ∈ vs}
  row : StrictMonoOn π.row {id | .row id ∈ vs}

theorem Renumbering.Ascends.on (hπ : π.Ascends) (vs : List Var) : π.AscendsOn vs :=
  ⟨hπ.type.strictMonoOn _, hπ.row.strictMonoOn _⟩

namespace VarNames

def place (ids : Finset Nat) (id : Nat) : Nat :=
  (ids.filter (· < id)).card

theorem place_lt_place {ids : Finset Nat} {a b : Nat} (ha : a ∈ ids) (hab : a < b) : place ids a < place ids b := by
  refine Finset.card_lt_card ((Finset.ssubset_iff_of_subset fun c hc => ?_).mpr ⟨a, ?_, ?_⟩)
  · rw [Finset.mem_filter] at hc ⊢
    exact ⟨hc.1, hc.2.trans hab⟩
  · exact Finset.mem_filter.mpr ⟨ha, hab⟩
  · exact fun h => Nat.lt_irrefl a (Finset.mem_filter.mp h).2

theorem place_inj {ids : Finset Nat} {a b : Nat} (ha : a ∈ ids) (hb : b ∈ ids) : place ids a = place ids b ↔ a = b := by
  refine ⟨fun h => ?_, congrArg _⟩
  rcases Nat.lt_trichotomy a b with hab | hab | hab
  · exact absurd h (place_lt_place ha hab).ne
  · exact hab
  · exact absurd h (place_lt_place hb hab).ne'

theorem place_image {f : Nat → Nat} {ids : Finset Nat} {id : Nat} (hf : StrictMonoOn f ids) (hid : id ∈ ids) :
    place (ids.image f) (f id) = place ids id := by
  have hlt : ids.filter (f · < f id) = ids.filter (· < id) :=
    Finset.filter_congr fun a ha => hf.lt_iff_lt ha hid
  rw [place, place, Finset.filter_image, Finset.card_image_of_injOn, hlt]
  exact hf.injOn.mono fun a ha => (Finset.mem_filter.mp ha).1

theorem place_getElem {ids : List Nat} (h : ids.Pairwise (· < ·)) {i : Nat} (hi : i < ids.length) :
    place ids.toFinset ids[i] = i := by
  have htake : ids.toFinset.filter (· < ids[i]) = (ids.take i).toFinset := by
    ext a
    rw [Finset.mem_filter, List.mem_toFinset, List.mem_toFinset, List.mem_take_iff_getElem, List.mem_iff_getElem]
    constructor
    · rintro ⟨⟨j, hj, rfl⟩, hlt⟩
      refine ⟨j, lt_min (not_le.mp fun hij => ?_) hj, rfl⟩
      rcases Nat.eq_or_lt_of_le hij with rfl | hij
      · exact Nat.lt_irrefl _ hlt
      · exact Nat.lt_asymm hlt (List.pairwise_iff_getElem.mp h i j hi hj hij)
    · rintro ⟨j, hj, rfl⟩
      obtain ⟨hji, hj⟩ := lt_min_iff.mp hj
      exact ⟨⟨j, hj, rfl⟩, List.pairwise_iff_getElem.mp h j i hj hi hji⟩
  rw [place, htake, List.toFinset_card_of_nodup (h.imp Nat.ne_of_lt |>.sublist (ids.take_sublist i)), List.length_take_of_le hi.le]

theorem find?_lettered {ids : List Nat} {id : Nat} (h : id ∈ ids) :
    (lettered (OrderedSet.ofList ids)).find? id = some (letter (place ids.toFinset id)) := by
  have hsorted : (OrderedSet.ofList ids).Pairwise (· < ·) :=
    (OrderedSet.ascending_ofList ids).imp Nat.compare_eq_lt.mp
  have hsame : (OrderedSet.ofList ids).toFinset = ids.toFinset := by
    ext a
    rw [List.mem_toFinset, List.mem_toFinset, OrderedSet.mem_ofList]
  obtain ⟨name, hname⟩ : ∃ name, (lettered (OrderedSet.ofList ids)).find? id = some name := by
    rw [← OrderedMap.mem_keys_iff, lettered, OrderedMap.mem_keys_ofList, List.map_map]
    rw [← OrderedSet.mem_ofList, ← List.zipIdx_map_fst 0 (OrderedSet.ofList ids)] at h
    exact h
  obtain ⟨⟨id', i⟩, hmem, heq⟩ := List.mem_map.mp (OrderedMap.mem_of_find?_ofList hname)
  obtain ⟨hi, rfl⟩ := List.mk_mem_zipIdx_iff_getElem?.mp hmem |> List.getElem?_eq_some_iff.mp
  obtain ⟨rfl, rfl⟩ := Prod.mk.inj heq
  rw [hname, ← hsame, place_getElem hsorted hi]

def typeIds (ts : List Ty) : Finset Nat :=
  (ts.flatMap Ty.typeVars).toFinset

def rowIds (ts : List Ty) : Finset Nat :=
  (ts.flatMap Ty.rowVars).toFinset

variable {ts : List Ty}

theorem mem_typeIds {id : TypeVarId} : id ∈ typeIds ts ↔ .type id ∈ ts.flatMap Ty.vars := by
  rw [typeIds, List.mem_toFinset, List.mem_flatMap, List.mem_flatMap]
  exact exists_congr fun t => and_congr_right fun _ => Ty.mem_typeVars_iff

theorem mem_rowIds {id : RowVarId} : id ∈ rowIds ts ↔ .row id ∈ ts.flatMap Ty.vars := by
  rw [rowIds, List.mem_toFinset, List.mem_flatMap, List.mem_flatMap]
  exact exists_congr fun t => and_congr_right fun _ => Ty.mem_rowVars_iff

theorem type_ofTypes {id : TypeVarId} (h : .type id ∈ ts.flatMap Ty.vars) :
    (ofTypes ts).type id = letter (place (typeIds ts) id) := by
  rw [type, ofTypes, find?_lettered (List.mem_toFinset.mp (mem_typeIds.mpr h))]
  rfl

theorem row_ofTypes {id : RowVarId} (h : .row id ∈ ts.flatMap Ty.vars) (kind : Kind) :
    (ofTypes ts).row kind id = (if kind.isEffectRow then "e" else "r") ++ letter (place (rowIds ts) id) := by
  rw [row, ofTypes, find?_lettered (List.mem_toFinset.mp (mem_rowIds.mpr h))]
  rfl

theorem mem_flatMap_vars_renumber {v : Var} :
    v ∈ (ts.map (Ty.renumber π)).flatMap Ty.vars ↔ ∃ w ∈ ts.flatMap Ty.vars, w.renumber π = v := by
  rw [List.flatMap_map, List.flatMap_congr fun t _ => t.vars_renumber, ← List.map_flatMap, List.mem_map]

theorem typeIds_renumber : typeIds (ts.map (Ty.renumber π)) = (typeIds ts).image π.type := by
  ext id
  rw [mem_typeIds, mem_flatMap_vars_renumber, Finset.mem_image]
  constructor
  · rintro ⟨_ | _, hw, hid⟩ <;> cases hid
    exact ⟨_, mem_typeIds.mpr hw, rfl⟩
  · rintro ⟨id, hid, rfl⟩
    exact ⟨_, mem_typeIds.mp hid, rfl⟩

theorem rowIds_renumber : rowIds (ts.map (Ty.renumber π)) = (rowIds ts).image π.row := by
  ext id
  rw [mem_rowIds, mem_flatMap_vars_renumber, Finset.mem_image]
  constructor
  · rintro ⟨_ | _, hw, hid⟩ <;> cases hid
    exact ⟨_, mem_rowIds.mpr hw, rfl⟩
  · rintro ⟨id, hid, rfl⟩
    exact ⟨_, mem_rowIds.mp hid, rfl⟩

theorem agree_ofTypes (hπ : π.AscendsOn (ts.flatMap Ty.vars)) {v : Var} (hv : v ∈ ts.flatMap Ty.vars) :
    Agree π (ofTypes ts) (ofTypes (ts.map (Ty.renumber π))) v := by
  have hv' : v.renumber π ∈ (ts.map (Ty.renumber π)).flatMap Ty.vars := mem_flatMap_vars_renumber.mpr ⟨v, hv, rfl⟩
  cases v with
  | type id =>
      have hmono : StrictMonoOn π.type (typeIds ts) := hπ.type.mono fun _ h => mem_typeIds.mp h
      rw [Agree, type_ofTypes hv, type_ofTypes hv', typeIds_renumber, place_image hmono (mem_typeIds.mpr hv)]
  | row id =>
      have hmono : StrictMonoOn π.row (rowIds ts) := hπ.row.mono fun _ h => mem_rowIds.mp h
      intro kind
      rw [row_ofTypes hv, row_ofTypes hv', rowIds_renumber, place_image hmono (mem_rowIds.mpr hv)]

end VarNames

theorem Ty.displayPair_renumber_on {t u : Ty} (hπ : π.AscendsOn ([t, u].flatMap Ty.vars)) :
    displayPair (t.renumber π) (u.renumber π) = displayPair t u := by
  have ht := write_renumber_both.1 t fun _ hv => VarNames.agree_ofTypes hπ (List.mem_flatMap.mpr ⟨t, by simp, hv⟩)
  have hu := write_renumber_both.1 u fun _ hv => VarNames.agree_ofTypes hπ (List.mem_flatMap.mpr ⟨u, by simp, hv⟩)
  exact congrArg₂ Prod.mk ht hu

variable (hπ : π.Ascends)

include hπ

theorem Ty.display_renumber (t : Ty) : (t.renumber π).display = t.display :=
  write_renumber_both.1 t fun _ hv =>
    VarNames.agree_ofTypes (hπ.on _) (List.mem_flatMap.mpr ⟨t, List.mem_singleton_self t, hv⟩)

theorem Ty.displayPair_renumber (t u : Ty) : displayPair (t.renumber π) (u.renumber π) = displayPair t u :=
  displayPair_renumber_on (hπ.on _)

end RowTyping
