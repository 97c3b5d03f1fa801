import Mathlib.Data.List.Basic
import Overload.Json

/-! Codecs between values and JSON, in the way of derived serde implementations.  Reading
may depend on an environment, check what it reads and rewrite it.  A value is settled if it
is read back as it was written, in every environment; a codec is lossless if it reads only
settled values. -/

namespace Overload.Serde

open Json

structure Codec (ε α : Type) where
  encode : α → Value
  decode : ε → Value → Option α

namespace Codec

variable {ε α β : Type} {c : Codec ε α} {d : Codec ε β} {x : α}

def Settled (c : Codec ε α) (x : α) : Prop := ∀ e, c.decode e (c.encode x) = some x

def Lossless (c : Codec ε α) : Prop := ∀ e v x, c.decode e v = some x → c.Settled x

def Faithful (c : Codec ε α) : Prop := ∀ x, c.Settled x

theorem Faithful.lossless (h : c.Faithful) : c.Lossless := fun _ _ x _ => h x

theorem Settled.hops {γ : Type} (h : c.Settled x) (receiver : γ → ε) (use : γ → α → α)
    (hwritten : ∀ hop, c.encode (use hop x) = c.encode x) (hops : List γ) :
    hops.foldlM (fun x hop => c.decode (receiver hop) (c.encode (use hop x))) x = some x := by
  induction hops with
  | nil => rfl
  | cons hop hops ih =>
    rw [List.foldlM_cons, hwritten, h (receiver hop)]
    exact ih

def string : Codec ε String where
  encode := .string
  decode _ v := v.asStr

def value : Codec ε Value where
  encode := id
  decode _ v := some v

def uint (toU64 : α → UInt64) (ofU64 : UInt64 → Option α) : Codec ε α where
  encode x := .number (.posInt (toU64 x))
  decode _ v :=
    match v with
    | .number (.posInt n) => ofU64 n
    | _ => none

theorem string_faithful : (string : Codec ε String).Faithful := fun _ _ => rfl

theorem value_faithful : (value : Codec ε Value).Faithful := fun _ _ => rfl

theorem uint_faithful {toU64 : α → UInt64} {ofU64 : UInt64 → Option α}
    (h : ∀ x, ofU64 (toU64 x) = some x) : (uint toU64 ofU64 : Codec ε α).Faithful :=
  fun x _ => h x

theorem uint_lossless {toU64 : α → UInt64} {ofU64 : UInt64 → Option α}
    (h : ∀ n x, ofU64 n = some x → ofU64 (toU64 x) = some x) :
    (uint toU64 ofU64 : Codec ε α).Lossless := by
  intro e v x hx
  cases v with
  | number n =>
    cases n with
    | posInt n => exact fun _ => h n x hx
    | _ => cases hx
  | _ => cases hx

def within (lo hi : UInt64) : Codec ε {n : UInt64 // lo ≤ n ∧ n ≤ hi} :=
  uint Subtype.val fun n => if h : lo ≤ n ∧ n ≤ hi then some ⟨n, h⟩ else none

theorem within_faithful (lo hi : UInt64) :
    (within lo hi : Codec ε {n : UInt64 // lo ≤ n ∧ n ≤ hi}).Faithful :=
  uint_faithful fun n => dif_pos n.2

def tryFrom (c : Codec ε α) (read : ε → α → Option β) (write : β → α) : Codec ε β where
  encode y := c.encode (write y)
  decode e v := (c.decode e v).bind (read e)

theorem settled_tryFrom {read : ε → α → Option β} {write : β → α} {y : β}
    (h : c.Settled (write y)) (hread : ∀ e, read e (write y) = some y) :
    (c.tryFrom read write).Settled y := by
  intro e
  change (c.decode e (c.encode (write y))).bind (read e) = some y
  rw [h e, Option.bind_some, hread e]

def option (c : Codec ε α) : Codec ε (Option α) where
  encode
    | none => .null
    | some x => c.encode x
  decode e v :=
    match v with
    | .null => some none
    | v => (c.decode e v).map some

theorem settled_none : c.option.Settled none := fun _ => rfl

theorem settled_some (h : c.Settled x) (hnull : c.encode x ≠ .null) :
    c.option.Settled (some x) := by
  intro e
  change (match c.encode x with
    | .null => some none
    | v => (c.decode e v).map some) = some (some x)
  split
  · exact absurd ‹_› hnull
  · rw [h e, Option.map_some]

theorem option_faithful (h : c.Faithful) (hnull : ∀ x, c.encode x ≠ .null) : c.option.Faithful
  | none => settled_none
  | some x => settled_some (h x) (hnull x)

def decodeElems (c : Codec ε α) (place : ε → Nat → ε) (e : ε) :
    Nat → List Value → Option (List α)
  | _, [] => some []
  | i, v :: vs => do
    let x ← c.decode (place e i) v
    let xs ← decodeElems c place e (i + 1) vs
    return x :: xs

def list (c : Codec ε α) (place : ε → Nat → ε) : Codec ε (List α) where
  encode xs := .array (xs.map c.encode)
  decode e v :=
    match v with
    | .array vs => decodeElems c place e 0 vs
    | _ => none

theorem settled_list {place : ε → Nat → ε} {xs : List α} (h : ∀ x ∈ xs, c.Settled x) :
    (c.list place).Settled xs := by
  intro e
  change decodeElems c place e 0 (xs.map c.encode) = some xs
  generalize 0 = i
  induction xs generalizing i with
  | nil => rfl
  | cons x xs ih =>
    obtain ⟨hx, hxs⟩ := List.forall_mem_cons.mp h
    rw [List.map_cons, decodeElems, hx, ih hxs]
    rfl

theorem reads_decodeElems {P : α → Prop} (hc : ∀ e v x, c.decode e v = some x → P x)
    {place : ε → Nat → ε} {e : ε} {i : Nat} {vs : List Value} {xs : List α}
    (h : decodeElems c place e i vs = some xs) : ∀ x ∈ xs, P x := by
  induction vs generalizing i xs with
  | nil =>
    cases h
    exact fun x hx => nomatch hx
  | cons v vs ih =>
    obtain ⟨x, hx, h⟩ := Option.bind_eq_some_iff.mp h
    obtain ⟨rest, hrest, h⟩ := Option.bind_eq_some_iff.mp h
    cases h
    exact List.forall_mem_cons.mpr ⟨hc _ v x hx, ih hrest⟩

theorem reads_list {P : α → Prop} (hc : ∀ e v x, c.decode e v = some x → P x)
    {place : ε → Nat → ε} (e : ε) (v : Value) (xs : List α)
    (h : (c.list place).decode e v = some xs) : ∀ x ∈ xs, P x := by
  cases v with
  | array vs => exact reads_decodeElems hc h
  | _ => cases h

end Codec

def tagged (tag : String) (v : Value) : Value := .object [(tag, v)]

def untag : Value → Option (String × Value)
  | .object [member] => some member
  | _ => none

def isUnit (tag : String) : Value → Bool
  | .string s => s == tag
  | .object [(key, .null)] => key == tag
  | _ => false

theorem isUnit_tagged {tag key : String} (h : key ≠ tag) (v : Value) :
    isUnit tag (tagged key v) = false := by
  cases v with
  | null => exact beq_false_of_ne h
  | _ => rfl

/-- The order in which a hash map's entries are met. -/
structure MapOrder (α : Type) where
  arrange : List (String × α) → List (String × α)
  perm : ∀ entries, (arrange entries).Perm entries

namespace Codec

variable {ε α β : Type} {c : Codec ε α} {x : α}

def decodeMembers (c : Codec ε α) (e : ε) :
    List (String × Value) → Option (List (String × α))
  | [] => some []
  | (key, v) :: members => do
    let x ← c.decode e v
    let entries ← decodeMembers c e members
    return (key, x) :: entries

def map (order : MapOrder α) (c : Codec ε α) : Codec ε (Std.ExtTreeMap String α) where
  encode m := .object ((order.arrange m.toList).map fun entry => (entry.1, c.encode entry.2))
  decode e v :=
    match v with
    | .object members => (decodeMembers c e members).map fun entries => .ofList entries
    | _ => none

theorem decodeMembers_encode (h : c.Faithful) (e : ε) (entries : List (String × α)) :
    decodeMembers c e (entries.map fun entry => (entry.1, c.encode entry.2)) = some entries := by
  induction entries with
  | nil => rfl
  | cons entry entries ih =>
    rw [List.map_cons, decodeMembers, h, ih]
    rfl

theorem ofList_arrange (order : MapOrder α) (m : Std.ExtTreeMap String α) :
    Std.ExtTreeMap.ofList (order.arrange m.toList) = m := by
  have hperm := order.perm m.toList
  refine Std.ExtTreeMap.ext_getElem? fun key => ?_
  cases hkey : m[key]? with
  | some x =>
    have hmem := hperm.mem_iff.mpr (Std.ExtTreeMap.mem_toList_iff_getElem?_eq_some.mpr hkey)
    refine Std.ExtTreeMap.getElem?_ofList_of_mem Std.ReflCmp.compare_self ?_ hmem
    refine (hperm.pairwise_iff fun h heq => h ?_).mpr Std.ExtTreeMap.distinct_keys_toList
    exact Std.OrientedCmp.eq_symm heq
  | none =>
    refine Std.ExtTreeMap.getElem?_ofList_of_contains_eq_false ?_
    refine Bool.eq_false_iff.mpr fun hcontains => ?_
    obtain ⟨entry, hentry, rfl⟩ := List.mem_map.mp (List.contains_iff_mem.mp hcontains)
    have hsome := Std.ExtTreeMap.mem_toList_iff_getElem?_eq_some.mp (hperm.mem_iff.mp hentry)
    rw [hkey] at hsome
    cases hsome

theorem map_faithful (order : MapOrder α) (h : c.Faithful) : (c.map order).Faithful := by
  intro m e
  change (decodeMembers c e ((order.arrange m.toList).map
    fun entry => (entry.1, c.encode entry.2))).map _ = _
  rw [decodeMembers_encode h, Option.map_some, ofList_arrange]

theorem Settled.variant {d : Codec ε β} {build : α → β} {tag : String} (h : c.Settled x)
    (hencode : d.encode (build x) = tagged tag (c.encode x))
    (hdecode : ∀ e v, d.decode e (tagged tag v) = (c.decode e v).map build) :
    d.Settled (build x) := by
  intro e
  rw [hencode, hdecode, h e, Option.map_some]

theorem Lossless.variant {d : Codec ε β} {build : α → β} {tag : String} (h : c.Lossless)
    (hencode : ∀ x, d.encode (build x) = tagged tag (c.encode x))
    (hdecode : ∀ e v, d.decode e (tagged tag v) = (c.decode e v).map build) {e : ε} {v : Value}
    {y : β} (hy : (c.decode e v).map build = some y) : d.Settled y := by
  obtain ⟨x, hx, rfl⟩ := Option.map_eq_some_iff.mp hy
  exact (h e v x hx).variant (hencode x) hdecode

end Codec

structure Fields (ε ρ α : Type) where
  keys : List String
  encode : ρ → List (String × Value)
  decode : ε → (String → Option Value) → Option α
  keys_encode : ∀ r, (encode r).map Prod.fst = keys

namespace Fields

variable {ε ρ α β : Type}

def build (x : α) : Fields ε ρ α where
  keys := []
  encode _ := []
  decode _ _ := some x
  keys_encode _ := rfl

def found (c : Codec ε α) (default : ε → Option α) (e : ε) : Option Value → Option α
  | some v => c.decode e v
  | none => default e

def fieldOr (f : Fields ε ρ (α → β)) (key : String) (c : Codec ε α) (get : ρ → α)
    (default : ε → Option α) : Fields ε ρ β where
  keys := f.keys ++ [key]
  encode r := f.encode r ++ [(key, c.encode (get r))]
  decode e members := do
    let make ← f.decode e members
    let x ← found c default e (members key)
    return make x
  keys_encode r := by rw [List.map_append, f.keys_encode, List.map_singleton]

def field (f : Fields ε ρ (α → β)) (key : String) (c : Codec ε α) (get : ρ → α) :
    Fields ε ρ β :=
  f.fieldOr key c get fun _ => none

def fieldOption (f : Fields ε ρ (Option α → β)) (key : String) (c : Codec ε α)
    (get : ρ → Option α) : Fields ε ρ β :=
  f.fieldOr key c.option get fun _ => some none

/-- A field that is not written, and is reset on reading. -/
def skip (f : Fields ε ρ (α → β)) (reset : α) : Fields ε ρ β where
  keys := f.keys
  encode := f.encode
  decode e members := (f.decode e members).map fun make => make reset
  keys_encode := f.keys_encode

end Fields

/-- Members under other keys are passed over; a field that is there twice is refused. -/
def Codec.record {ε ρ : Type} (f : Fields ε ρ ρ) : Codec ε ρ where
  encode r := .object (f.encode r)
  decode e v :=
    match v with
    | .object members =>
      if ((members.map Prod.fst).filter f.keys.contains).Nodup then
        f.decode e fun key => members.lookup key
      else none
    | _ => none

namespace Fields

variable {ε ρ α β : Type} {f : Fields ε ρ (α → β)} {c : Codec ε α} {r : ρ} {make : α → β}
  {key : String} {get : ρ → α} {default : ε → Option α}

def Settled (f : Fields ε ρ α) (r : ρ) (x : α) : Prop :=
  ∀ e members, (∀ m ∈ f.encode r, members m.1 = some m.2) → f.decode e members = some x

theorem settled_build (x : α) : (build x : Fields ε ρ α).Settled r x := fun _ _ _ => rfl

theorem Settled.fieldOr (h : f.Settled r make) (hc : c.Settled (get r)) :
    (f.fieldOr key c get default).Settled r (make (get r)) := by
  intro e members hmembers
  have hkey : members key = some (c.encode (get r)) :=
    hmembers (key, c.encode (get r)) (List.mem_append_right _ List.mem_cons_self)
  have hmake := h e members fun m hm => hmembers m (List.mem_append_left _ hm)
  change ((f.decode e members).bind fun make => (found c default e (members key)).bind fun x =>
    some (make x)) = _
  rw [hmake, Option.bind_some, hkey, found, hc e, Option.bind_some]

theorem Settled.field (h : f.Settled r make) (hc : c.Settled (get r)) :
    (f.field key c get).Settled r (make (get r)) :=
  Settled.fieldOr h hc

theorem Settled.fieldOption {f : Fields ε ρ (Option α → β)} {get : ρ → Option α}
    {make : Option α → β} (h : f.Settled r make) (hc : c.option.Settled (get r)) :
    (f.fieldOption key c get).Settled r (make (get r)) :=
  Settled.fieldOr h hc

theorem Settled.skip (h : f.Settled r make) (reset : α) :
    (f.skip reset).Settled r (make reset) := by
  intro e members hmembers
  change (f.decode e members).map _ = _
  rw [h e members hmembers, Option.map_some]

def Reads (f : Fields ε ρ α) (P : α → Prop) : Prop :=
  ∀ e members x, f.decode e members = some x → P x

theorem reads_build {P : α → Prop} {x : α} (h : P x) : (build x : Fields ε ρ α).Reads P := by
  rintro e members _ ⟨⟩
  exact h

theorem Reads.fieldOr {P : β → Prop} {Q : α → Prop} (hc : ∀ e v x, c.decode e v = some x → Q x)
    (hdefault : ∀ e x, default e = some x → Q x)
    (h : f.Reads fun make => ∀ x, Q x → P (make x)) :
    (f.fieldOr key c get default).Reads P := by
  intro e members y hy
  obtain ⟨make, hmake, hy⟩ := Option.bind_eq_some_iff.mp hy
  obtain ⟨x, hx, heq⟩ := Option.bind_eq_some_iff.mp hy
  cases heq
  refine h e members make hmake x ?_
  cases hkey : members key with
  | some v =>
    rw [hkey] at hx
    exact hc e v x hx
  | none =>
    rw [hkey] at hx
    exact hdefault e x hx

theorem Reads.field {P : β → Prop} {Q : α → Prop} (hc : ∀ e v x, c.decode e v = some x → Q x)
    (h : f.Reads fun make => ∀ x, Q x → P (make x)) : (f.field key c get).Reads P :=
  Reads.fieldOr hc (fun _ _ hx => nomatch hx) h

theorem Reads.pass {P : β → Prop} (h : f.Reads fun make => ∀ x, P (make x)) :
    (f.fieldOr key c get default).Reads P :=
  Reads.fieldOr (Q := fun _ => True) (fun _ _ _ _ => trivial) (fun _ _ _ => trivial)
    fun e members make hmake x _ => h e members make hmake x

theorem Reads.skip {P : β → Prop} {reset : α} (h : f.Reads fun make => P (make reset)) :
    (f.skip reset).Reads P := by
  intro e members y hy
  obtain ⟨make, hmake, rfl⟩ := Option.map_eq_some_iff.mp hy
  exact h e members make hmake

end Fields

namespace Codec

variable {ε ρ : Type} {f : Fields ε ρ ρ} {r : ρ}

theorem settled_record (hkeys : f.keys.Nodup) (h : f.Settled r r) : (record f).Settled r := by
  intro e
  have honce : ((f.encode r).map Prod.fst).Nodup := f.keys_encode r ▸ hkeys
  change (if (((f.encode r).map Prod.fst).filter f.keys.contains).Nodup then
    f.decode e fun key => (f.encode r).lookup key else none) = some r
  rw [if_pos (honce.filter _)]
  exact h e _ fun m hm => (lookup_eq_some_iff honce).mpr hm

theorem reads_record {P : ρ → Prop} (h : f.Reads P) (e : ε) (v : Value) (r : ρ)
    (hr : (record f).decode e v = some r) : P r := by
  cases v with
  | object members =>
    obtain ⟨-, hr⟩ := Option.ite_none_right_eq_some.mp hr
    exact h e _ r hr
  | _ => cases hr

theorem record_lossless (h : f.Reads (record f).Settled) : (record f).Lossless := reads_record h

end Codec

end Overload.Serde
