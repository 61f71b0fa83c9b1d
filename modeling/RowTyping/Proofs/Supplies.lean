import RowTyping.Infer.Context
import RowTyping.Proofs.Variables
import Mathlib.Data.List.Nodup

namespace RowTyping

inductive Source where
  | supply (s : Supply)
  | unifier (u : Unifier)
  | context (c : Context)

namespace Source

def left : Source → Supply
  | supply s => s
  | unifier u => u.supply
  | context c => c.unifier.supply

def freshType : Source → TypeVarId × Source
  | supply s => s.freshType.map id supply
  | unifier u => u.supply.freshType.map id fun s => unifier { u with supply := s }
  | context c => (InferM.freshTypeVar.run c).map id context

def freshRow : Source → RowVarId × Source
  | supply s => s.freshRow.map id supply
  | unifier u => u.supply.freshRow.map id fun s => unifier { u with supply := s }
  | context c => (InferM.freshRow.run c).map id context

theorem freshType_eq (source : Source) : source.freshType.map id left = source.left.freshType := by
  cases source <;> rfl

theorem freshRow_eq (source : Source) : source.freshRow.map id left = source.left.freshRow := by
  cases source <;> rfl

end Source

theorem disjoint_range' {start start' n n' : Nat} (h : start ≤ start') :
    (List.range' start n).Disjoint (List.range' start' n') ↔ (0 < n' → start + n ≤ start') := by
  simp only [List.disjoint_left, List.mem_range'_1]
  constructor
  · intro hdisjoint hn'
    by_contra hover
    exact hdisjoint ⟨h, Nat.lt_of_not_le hover⟩ ⟨Nat.le_refl _, Nat.lt_add_of_pos_right hn'⟩
  · intro hends v hv hv'
    have := hends (by omega)
    omega

structure Holder where
  first : Supply
  source : Source

namespace Holder

def types (h : Holder) : Nat :=
  h.source.left.nextType - h.first.nextType

def rows (h : Holder) : Nat :=
  h.source.left.nextRow - h.first.nextRow

def vars (h : Holder) : List Var :=
  (List.range' h.first.nextType h.types).map .type ++ (List.range' h.first.nextRow h.rows).map .row

def Ahead (h : Holder) : Prop :=
  h.first.nextType ≤ h.source.left.nextType ∧ h.first.nextRow ≤ h.source.left.nextRow

def drawType (h : Holder) : Var × Holder :=
  h.source.freshType.map .type fun source => { h with source }

def drawRow (h : Holder) : Var × Holder :=
  h.source.freshRow.map .row fun source => { h with source }

variable {h h' : Holder}

theorem vars_make (s : Supply) {source : Source} (hleft : source.left = s) : (⟨s, source⟩ : Holder).vars = [] := by
  simp [vars, types, rows, hleft]

theorem drawType_left (h : Holder) : h.drawType.2.source.left = { h.source.left with nextType := h.source.left.nextType + 1 } :=
  congrArg Prod.snd h.source.freshType_eq

theorem drawRow_left (h : Holder) : h.drawRow.2.source.left = { h.source.left with nextRow := h.source.left.nextRow + 1 } :=
  congrArg Prod.snd h.source.freshRow_eq

structure Draws (h : Holder) (v : Var) (h' : Holder) : Prop where
  first : h'.first = h.first
  ahead : h'.Ahead
  vars : h'.vars.Perm (v :: h.vars)

theorem draws_type (hahead : h.Ahead) : h.Draws h.drawType.1 h.drawType.2 := by
  have hvar : h.drawType.1 = .type (h.first.nextType + h.types) :=
    (congrArg (Var.type ∘ Prod.fst) h.source.freshType_eq).trans (congrArg Var.type (Nat.add_sub_cancel' hahead.1).symm)
  have htypes : h.drawType.2.types = h.types + 1 := by
    rw [types, drawType_left]
    exact Nat.succ_sub hahead.1
  have hrows : h.drawType.2.rows = h.rows := by
    rw [rows, drawType_left]
    rfl
  refine ⟨rfl, ?_, ?_⟩
  · rw [Ahead, drawType_left]
    exact ⟨Nat.le_succ_of_le hahead.1, hahead.2⟩
  · rw [vars, vars, htypes, hrows, hvar, List.range'_1_concat, List.map_append, List.append_assoc]
    exact List.perm_middle

theorem draws_row (hahead : h.Ahead) : h.Draws h.drawRow.1 h.drawRow.2 := by
  have hvar : h.drawRow.1 = .row (h.first.nextRow + h.rows) :=
    (congrArg (Var.row ∘ Prod.fst) h.source.freshRow_eq).trans (congrArg Var.row (Nat.add_sub_cancel' hahead.2).symm)
  have htypes : h.drawRow.2.types = h.types := by
    rw [types, drawRow_left]
    rfl
  have hrows : h.drawRow.2.rows = h.rows + 1 := by
    rw [rows, drawRow_left]
    exact Nat.succ_sub hahead.2
  refine ⟨rfl, ?_, ?_⟩
  · rw [Ahead, drawRow_left]
    exact ⟨hahead.1, Nat.le_succ_of_le hahead.2⟩
  · rw [vars, vars, htypes, hrows, hvar, List.range'_1_concat, List.map_append, ← List.append_assoc]
    exact List.perm_append_singleton _ _

theorem nodup_vars (h : Holder) : h.vars.Nodup := by
  refine (List.Nodup.map (fun _ _ => Var.type.inj) List.nodup_range').append (List.Nodup.map (fun _ _ => Var.row.inj) List.nodup_range') ?_
  refine List.disjoint_left.mpr fun v htype hrow => ?_
  obtain ⟨_, -, rfl⟩ := List.mem_map.mp htype
  obtain ⟨_, -, heq⟩ := List.mem_map.mp hrow
  cases heq

theorem disjoint_vars (htypes : h.first.nextType ≤ h'.first.nextType) (hrows : h.first.nextRow ≤ h'.first.nextRow) :
    h.vars.Disjoint h'.vars ↔
      (0 < h'.types → h.first.nextType + h.types ≤ h'.first.nextType) ∧ (0 < h'.rows → h.first.nextRow + h.rows ≤ h'.first.nextRow) := by
  rw [← disjoint_range' htypes, ← disjoint_range' hrows, vars, vars]
  constructor
  · intro h
    constructor
    · intro id hid hid'
      exact h (List.mem_append_left _ (List.mem_map_of_mem hid)) (List.mem_append_left _ (List.mem_map_of_mem hid'))
    · intro id hid hid'
      exact h (List.mem_append_right _ (List.mem_map_of_mem hid)) (List.mem_append_right _ (List.mem_map_of_mem hid'))
  · rintro ⟨htypes, hrows⟩ (id | id) hv hv'
    · exact htypes (by simpa using hv) (by simpa using hv')
    · exact hrows (by simpa using hv) (by simpa using hv')

end Holder

inductive Request where
  | supply
  | unifier
  | context
  | type (i : Nat)
  | row (i : Nat)
  deriving DecidableEq

structure Pool where
  counters : Counters
  holders : List Holder
  drawn : List Var

namespace Pool

def start (counters : Counters) : Pool :=
  ⟨counters, [], []⟩

def make (source : Supply → Source) (p : Pool) : Pool :=
  let (s, counters) := p.counters.allocate
  { p with counters, holders := p.holders ++ [⟨s, source s⟩] }

def draw (choose : Holder → Var × Holder) (i : Nat) (p : Pool) : Pool :=
  match p.holders[i]? with
  | none => p
  | some h =>
      let (v, h) := choose h
      { p with holders := p.holders.set i h, drawn := v :: p.drawn }

def serve (p : Pool) : Request → Pool
  | .supply => p.make .supply
  | .unifier => p.make fun s => .unifier (.ofSupply s)
  | .context => p.make fun s => .context (.ofSupply s)
  | .type i => p.draw Holder.drawType i
  | .row i => p.draw Holder.drawRow i

def run (counters : Counters) (requests : List Request) : Pool :=
  requests.foldl serve (start counters)

variable {counters : Counters} {p : Pool}

def block (counters : Counters) (i : Nat) : Supply :=
  ⟨counters.nextType + Counters.blockSize * i, counters.nextRow + Counters.blockSize * i⟩

theorem block_succ (counters : Counters) (i : Nat) : block counters (i + 1) =
    ⟨(block counters i).nextType + Counters.blockSize, (block counters i).nextRow + Counters.blockSize⟩ := by
  rw [block, Nat.mul_succ, ← Nat.add_assoc, ← Nat.add_assoc, block]

theorem stops_iff {start n i j : Nat} (hij : i < j) :
    start + Counters.blockSize * i + n ≤ start + Counters.blockSize * j ↔ n ≤ Counters.blockSize * (j - i) := by
  have hle : Counters.blockSize * i ≤ Counters.blockSize * j := Nat.mul_le_mul_left _ (Nat.le_of_lt hij)
  rw [Nat.mul_sub]
  omega

structure Laid (counters : Counters) (p : Pool) : Prop where
  next : p.counters.allocate.1 = block counters p.holders.length
  first : ∀ i h, p.holders[i]? = some h → h.first = block counters i
  ahead : ∀ h ∈ p.holders, h.Ahead
  drawn : p.drawn.Perm (p.holders.flatMap Holder.vars)

theorem laid_start (counters : Counters) : Laid counters (start counters) where
  next := rfl
  first _ _ h := by cases h
  ahead := List.forall_mem_nil _
  drawn := .refl _

theorem Laid.make (hp : Laid counters p) (source : Supply → Source) (hsource : ∀ s, (source s).left = s) :
    Laid counters (p.make source) where
  next := by
    rw [Pool.make, List.length_append, List.length_singleton, block_succ, ← hp.next]
    rfl
  first i h hi := by
    rcases Nat.lt_or_ge i p.holders.length with hlt | hge
    · exact hp.first i h ((List.getElem?_append_left hlt).symm.trans hi)
    · rw [Pool.make, List.getElem?_append_right hge, List.getElem?_singleton] at hi
      split at hi
      · cases hi
        rw [Nat.le_antisymm (Nat.sub_eq_zero_iff_le.mp ‹_›) hge]
        exact hp.next
      · cases hi
  ahead := by
    refine List.forall_mem_append.mpr ⟨hp.ahead, List.forall_mem_singleton.mpr ?_⟩
    rw [Holder.Ahead, hsource]
    exact ⟨Nat.le_refl _, Nat.le_refl _⟩
  drawn := by
    rw [Pool.make, List.flatMap_append, List.flatMap_singleton, Holder.vars_make _ (hsource _), List.append_nil]
    exact hp.drawn

theorem flatMap_set_perm {hs : List Holder} {i : Nat} {h h' : Holder} {v : Var} (hi : hs[i]? = some h) (hdraws : h.Draws v h') :
    ((hs.set i h').flatMap Holder.vars).Perm (v :: hs.flatMap Holder.vars) := by
  induction hs generalizing i with
  | nil => cases hi
  | cons first hs ih =>
      cases i with
      | zero =>
          cases hi
          exact hdraws.vars.append_right _
      | succ i => exact ((ih hi).append_left _).trans List.perm_middle

theorem Laid.draw (hp : Laid counters p) {choose : Holder → Var × Holder} (hchoose : ∀ {h : Holder}, h.Ahead → h.Draws (choose h).1 (choose h).2)
    (i : Nat) : Laid counters (p.draw choose i) := by
  rw [Pool.draw]
  split
  · exact hp
  · rename_i h hi
    have hdraws := hchoose (hp.ahead h (List.mem_of_getElem? hi))
    constructor
    · rw [List.length_set]
      exact hp.next
    · intro j h' hj
      rw [List.getElem?_set] at hj
      split at hj
      · split at hj
        · cases hj
          subst i
          exact hdraws.first.trans (hp.first _ h hi)
        · cases hj
      · exact hp.first j h' hj
    · intro h' hmem
      rcases List.mem_or_eq_of_mem_set hmem with hmem | rfl
      · exact hp.ahead h' hmem
      · exact hdraws.ahead
    · exact (hp.drawn.cons _).trans (flatMap_set_perm hi hdraws).symm

theorem Laid.serve (hp : Laid counters p) (request : Request) : Laid counters (p.serve request) := by
  cases request with
  | supply => exact hp.make .supply fun _ => rfl
  | unifier => exact hp.make (fun s => .unifier (.ofSupply s)) fun _ => rfl
  | context => exact hp.make (fun s => .context (.ofSupply s)) fun _ => rfl
  | type i => exact hp.draw Holder.draws_type i
  | row i => exact hp.draw Holder.draws_row i

theorem laid_run (counters : Counters) (requests : List Request) : Laid counters (run counters requests) := by
  have hrun : ∀ p, Laid counters p → Laid counters (requests.foldl Pool.serve p) := by
    induction requests with
    | nil => exact fun p hp => hp
    | cons request requests ih => exact fun p hp => ih _ (hp.serve request)
  exact hrun _ (laid_start counters)

theorem Laid.disjoint_vars (hp : Laid counters p) {i j : Nat} {h h' : Holder} (hij : i < j) (hi : p.holders[i]? = some h)
    (hj : p.holders[j]? = some h') : h.vars.Disjoint h'.vars ↔
      (0 < h'.types → h.types ≤ Counters.blockSize * (j - i)) ∧ (0 < h'.rows → h.rows ≤ Counters.blockSize * (j - i)) := by
  have hle : Counters.blockSize * i ≤ Counters.blockSize * j := Nat.mul_le_mul_left _ (Nat.le_of_lt hij)
  rw [Holder.disjoint_vars, hp.first i h hi, hp.first j h' hj]
  · exact and_congr (imp_congr_right fun _ => stops_iff hij) (imp_congr_right fun _ => stops_iff hij)
  · rw [hp.first i h hi, hp.first j h' hj]
    exact Nat.add_le_add_left hle _
  · rw [hp.first i h hi, hp.first j h' hj]
    exact Nat.add_le_add_left hle _

theorem nodup_drawn_iff (counters : Counters) (requests : List Request) :
    (run counters requests).drawn.Nodup ↔
      ∀ i j h h', i < j → (run counters requests).holders[i]? = some h → (run counters requests).holders[j]? = some h' →
        (0 < h'.types → h.types ≤ Counters.blockSize * (j - i)) ∧ (0 < h'.rows → h.rows ≤ Counters.blockSize * (j - i)) := by
  have hlaid := laid_run counters requests
  rw [hlaid.drawn.nodup_iff, List.nodup_flatMap, List.pairwise_iff_getElem]
  constructor
  · rintro ⟨-, hdisjoint⟩ i j h h' hij hi hj
    obtain ⟨hi', rfl⟩ := List.getElem?_eq_some_iff.mp hi
    obtain ⟨hj', rfl⟩ := List.getElem?_eq_some_iff.mp hj
    exact (hlaid.disjoint_vars hij hi hj).mp (hdisjoint i j hi' hj' hij)
  · refine fun hstops => ⟨fun h _ => h.nodup_vars, fun i j hi hj hij => ?_⟩
    have hi' := List.getElem?_eq_getElem hi
    have hj' := List.getElem?_eq_getElem hj
    exact (hlaid.disjoint_vars hij hi' hj').mpr (hstops i j _ _ hij hi' hj')

theorem foldl_type (counters : Counters) (first s : Supply) (hs : List Holder) (drawn : List Var) (n : Nat) :
    (List.replicate n (.type 0)).foldl serve ⟨counters, ⟨first, .supply s⟩ :: hs, drawn⟩ =
      ⟨counters, ⟨first, .supply ⟨s.nextType + n, s.nextRow⟩⟩ :: hs, ((List.range' s.nextType n).map .type).reverse ++ drawn⟩ := by
  induction n generalizing s drawn with
  | zero => rfl
  | succ n ih =>
      rw [List.replicate_succ, List.foldl_cons, List.range'_succ, List.map_cons, List.reverse_cons, List.append_assoc]
      refine (ih ⟨s.nextType + 1, s.nextRow⟩ (.type s.nextType :: drawn)).trans ?_
      rw [Nat.add_assoc, Nat.add_comm 1 n]
      rfl

theorem drawn_behind (n : Nat) : (run ⟨0, 0⟩ ([.supply, .supply] ++ List.replicate n (.type 0) ++ [.type 1])).drawn =
    .type Counters.blockSize :: ((List.range' 0 n).map .type).reverse := by
  rw [run, List.foldl_append, List.foldl_append]
  have hfirst := foldl_type ⟨2048, 2048⟩ ⟨0, 0⟩ ⟨0, 0⟩ [⟨⟨1024, 1024⟩, .supply ⟨1024, 1024⟩⟩] [] n
  rw [List.append_nil] at hfirst
  exact congrArg (fun p => (p.serve (.type 1)).drawn) hfirst

theorem drawn_twice : ¬ (run ⟨0, 0⟩ ([.supply, .supply] ++ List.replicate 1025 (.type 0) ++ [.type 1])).drawn.Nodup := by
  rw [drawn_behind, List.nodup_cons, List.mem_reverse]
  exact fun h => h.1 (List.mem_map_of_mem (List.mem_range'_1.mpr ⟨Nat.zero_le _, Nat.lt_succ_self _⟩))

end Pool

end RowTyping
