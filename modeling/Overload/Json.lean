import Mathlib.Data.List.Nodup

namespace Overload.Json

inductive Number
  | posInt (n : UInt64)
  | negInt (n : Int64)
  | float (bits : UInt64)
  deriving DecidableEq, Repr

def Number.ofI64 (n : Int64) : Number := if n < 0 then .negInt n else .posInt n.toUInt64

def Number.asI64 : Number → Option Int64
  | .posInt n => if n ≤ 0x7fffffffffffffff then some n.toInt64 else none
  | .negInt n => some n
  | .float _ => none

theorem toUInt64_le_of_nonneg {n : Int64} (hn : ¬ n < 0) : n.toUInt64 ≤ 0x7fffffffffffffff := by
  rw [Int64.lt_iff_toInt_lt, show n.toInt = n.toBitVec.toInt from rfl,
    BitVec.toInt_eq_toNat_cond, show (0 : Int64).toInt = 0 from rfl] at hn
  rw [UInt64.le_iff_toNat_le, show n.toUInt64.toNat = n.toBitVec.toNat from rfl,
    show (0x7fffffffffffffff : UInt64).toNat = 0x7fffffffffffffff from rfl]
  have := n.toBitVec.isLt
  split at hn <;> omega

theorem Number.asI64_ofI64 (n : Int64) : (Number.ofI64 n).asI64 = some n := by
  unfold ofI64
  by_cases hn : n < 0
  · simp [hn, asI64]
  · simp [hn, asI64, toUInt64_le_of_nonneg hn]

inductive Value
  | null
  | bool (b : Bool)
  | number (n : Number)
  | string (s : String)
  | array (elems : List Value)
  | object (members : List (String × Value))

namespace Value

def get (v : Value) (key : String) : Option Value :=
  match v with
  | .object members => members.lookup key
  | _ => none

def asStr : Value → Option String
  | .string s => some s
  | _ => none

def asI64 : Value → Option Int64
  | .number n => n.asI64
  | _ => none

def asObject : Value → Option (List (String × Value))
  | .object members => some members
  | _ => none

inductive WellFormed : Value → Prop
  | null : WellFormed .null
  | bool (b : Bool) : WellFormed (.bool b)
  | number (n : Number) : WellFormed (.number n)
  | string (s : String) : WellFormed (.string s)
  | array {elems : List Value} : (∀ v ∈ elems, WellFormed v) → WellFormed (.array elems)
  | object {members : List (String × Value)} : (members.map Prod.fst).Nodup →
    (∀ m ∈ members, WellFormed m.2) → WellFormed (.object members)

@[elab_as_elim]
theorem inductionOn {motive : Value → Prop} (v : Value) (null : motive .null)
    (bool : ∀ b, motive (.bool b)) (number : ∀ n, motive (.number n))
    (string : ∀ s, motive (.string s))
    (array : ∀ elems, (∀ w ∈ elems, motive w) → motive (.array elems))
    (object : ∀ members : List (String × Value), (∀ m ∈ members, motive m.2) →
      motive (.object members)) : motive v :=
  @Value.rec motive (fun elems => ∀ w ∈ elems, motive w)
    (fun members => ∀ m ∈ members, motive m.2) (fun m => motive m.2)
    null bool number string array object
    (fun _ h => nomatch h)
    (fun _ _ hhead htail => List.forall_mem_cons.mpr ⟨hhead, htail⟩)
    (fun _ h => nomatch h)
    (fun _ _ hhead htail => List.forall_mem_cons.mpr ⟨hhead, htail⟩)
    (fun _ _ h => h) v

end Value

section Lookup

section Keys

variable {κ α : Type} [BEq κ] [LawfulBEq κ] {l l' : List (κ × α)} {k : κ} {x : α}

theorem mem_of_lookup (h : l.lookup k = some x) : (k, x) ∈ l := by
  obtain ⟨l₁, l₂, rfl, _⟩ := List.lookup_eq_some_iff.mp h
  simp

theorem lookup_eq_some_iff (hl : (l.map Prod.fst).Nodup) : l.lookup k = some x ↔ (k, x) ∈ l := by
  refine ⟨mem_of_lookup, ?_⟩
  induction l with
  | nil => simp
  | cons m l ih =>
    obtain ⟨k', x'⟩ := m
    obtain ⟨hk', hl⟩ := List.nodup_cons.mp hl
    intro hmem
    by_cases hk : k = k'
    · subst hk
      rcases List.mem_cons.mp hmem with heq | hmem
      · cases heq
        exact List.lookup_cons_self
      · exact absurd (List.mem_map_of_mem hmem) hk'
    · rw [List.lookup_cons, beq_false_of_ne hk]
      refine ih hl ((List.mem_cons.mp hmem).resolve_left fun heq => hk ?_)
      cases heq
      rfl

theorem lookup_perm (h : l.Perm l') (hl : (l.map Prod.fst).Nodup) : l.lookup k = l'.lookup k := by
  have hl' := (h.map Prod.fst).nodup_iff.mp hl
  apply Option.ext
  intro x
  rw [lookup_eq_some_iff hl, lookup_eq_some_iff hl', h.mem_iff]

end Keys

variable {α : Type} {l l' : List (String × α)} {k : String} {x : α}

theorem Value.WellFormed.get {v w : Value} (hv : v.WellFormed) (h : v.get k = some w) :
    w.WellFormed := by
  cases hv with
  | object _ hmembers => exact hmembers (k, w) (mem_of_lookup h)
  | _ => cases h

theorem Value.sizeOf_get_lt {v w : Value} (h : v.get k = some w) : sizeOf w < sizeOf v := by
  cases v with
  | object members =>
    have hmem : sizeOf (k, w) < sizeOf members := List.sizeOf_lt_of_mem (mem_of_lookup h)
    simp only [Prod.mk.sizeOf_spec, Value.object.sizeOf_spec] at hmem ⊢
    omega
  | _ => cases h

theorem Value.sizeOf_asObject_lt {v : Value} {members : List (String × Value)}
    (h : v.asObject = some members) : sizeOf members < sizeOf v := by
  cases v with
  | object members' =>
    cases h
    simp
  | _ => cases h

end Lookup

end Overload.Json
