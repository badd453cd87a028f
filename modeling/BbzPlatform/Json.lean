import Mathlib.Algebra.Order.Ring.Unbundled.Rat
import Mathlib.Data.List.Infix

/-!
# JSON values as Python holds them

The parts of the platform that take a JSON document receive it already decoded:
`None`, `bool`, `int`, `float`, `str`, `list` and `dict`.  `Json` is that tree,
and the functions below are the built-in operators the code applies to it.

Two habits of Python show here.  A `bool` is a number, so `True == 1`; and the
order operators raise `TypeError` on operands of different kinds, which is `none`
in `Json.order`.  A `dict` is an association list, and `Json.get` reads the first
binding of a key.

A `float` is its exact rational value.  JSON has no infinities and no NaN.
-/

namespace BbzPlatform

/-- A decoded JSON value. -/
inductive Json where
  | null
  | bool (b : Bool)
  | int (i : ℤ)
  | float (q : ℚ)
  | str (s : String)
  | arr (items : List Json)
  | obj (fields : List (String × Json))
  deriving Inhabited

/-- A read-only `Mapping[str, α]`. -/
abbrev Mapping (α : Type) := String → Option α

namespace Json

/-- `d.get(key)` on the fields of an object. -/
def get (fields : List (String × Json)) (key : String) : Option Json :=
  fields.lookup key

/-- `key in d`. -/
def has (fields : List (String × Json)) (key : String) : Bool :=
  (get fields key).isSome

/-- The value of a number or a `bool`, which compares as one. -/
def number? : Json → Option ℚ
  | .bool b => some (if b then 1 else 0)
  | .int i => some i
  | .float q => some q
  | _ => none

/-- `type(v).__name__`. -/
def typeName : Json → String
  | .null => "NoneType"
  | .bool _ => "bool"
  | .int _ => "int"
  | .float _ => "float"
  | .str _ => "str"
  | .arr _ => "list"
  | .obj _ => "dict"

/-- Whether `hash(v)` raises: lists and dicts cannot be looked up in a set. -/
def unhashable : Json → Bool
  | .arr _ => true
  | .obj _ => true
  | _ => false

/-- `bool(v)`. -/
def truthy : Json → Bool
  | .null => false
  | .bool b => b
  | .int i => i ≠ 0
  | .float q => q ≠ 0
  | .str s => s ≠ ""
  | .arr items => !items.isEmpty
  | .obj fields => !fields.isEmpty

mutual

/-- `a == b`.  Dicts are equal when they bind the same keys to equal values. -/
def eq : Json → Json → Bool
  | .null, .null => true
  | .str s, .str t => s = t
  | .arr xs, .arr ys => eqList xs ys
  | .obj xs, .obj ys => xs.length = ys.length && eqFields xs ys
  | .bool b, v => v.number? = some (if b then 1 else 0)
  | .int i, v => v.number? = some (i : ℚ)
  | .float q, v => v.number? = some q
  | _, _ => false

/-- Lists are equal item by item. -/
def eqList : List Json → List Json → Bool
  | [], [] => true
  | x :: xs, y :: ys => eq x y && eqList xs ys
  | _, _ => false

/-- Every binding of the first dict is one of the second. -/
def eqFields : List (String × Json) → List (String × Json) → Bool
  | [], _ => true
  | (k, v) :: rest, ys =>
    (match get ys k with
      | some w => eq v w
      | none => false) && eqFields rest ys

end

mutual

/-- The order Python's `<`, `<=`, `>` and `>=` read off two values, `none` where
they raise `TypeError`.  Lists compare at the first place where they differ. -/
def order : Json → Json → Option Ordering
  | .str s, .str t => some (compare s t)
  | .arr xs, .arr ys => orderList xs ys
  | .bool b, v => v.number?.map (compare (if b then 1 else 0 : ℚ))
  | .int i, v => v.number?.map (compare (i : ℚ))
  | .float q, v => v.number?.map (compare q)
  | _, _ => none

/-- Skip equal items; the first unequal pair decides, then the lengths. -/
def orderList : List Json → List Json → Option Ordering
  | [], [] => some .eq
  | [], _ :: _ => some .lt
  | _ :: _, [] => some .gt
  | x :: xs, y :: ys => if eq x y then orderList xs ys else order x y

end

/-- `needle in haystack` for the collections a JSON value can be, `none` where
Python raises `TypeError`. -/
def contained (needle : Json) : Json → Option Bool
  | .arr items => some (items.any fun item => eq needle item)
  | .str s =>
    match needle with
    | .str t => some (decide (t.toList <:+: s.toList))
    | _ => none
  | _ => none

/-! ## Identity -/

mutual

/-- Whether two values are the same, key order included. -/
def same : Json → Json → Bool
  | .null, .null => true
  | .bool a, .bool b => a = b
  | .int a, .int b => a = b
  | .float a, .float b => a = b
  | .str a, .str b => a = b
  | .arr xs, .arr ys => sameList xs ys
  | .obj xs, .obj ys => sameFields xs ys
  | _, _ => false

def sameList : List Json → List Json → Bool
  | [], [] => true
  | x :: xs, y :: ys => same x y && sameList xs ys
  | _, _ => false

def sameFields : List (String × Json) → List (String × Json) → Bool
  | [], [] => true
  | (k, v) :: xs, (l, w) :: ys => k = l && same v w && sameFields xs ys
  | _, _ => false

end

mutual

theorem same_iff (a b : Json) : same a b = true ↔ a = b := by
  cases a <;> cases b <;> simp [same]
  · exact sameList_iff _ _
  · exact sameFields_iff _ _

theorem sameList_iff (xs ys : List Json) : sameList xs ys = true ↔ xs = ys := by
  cases xs <;> cases ys <;> simp [sameList]
  rw [same_iff, sameList_iff]

theorem sameFields_iff (xs ys : List (String × Json)) : sameFields xs ys = true ↔ xs = ys := by
  rcases xs with _ | ⟨⟨k, v⟩, xs⟩ <;> rcases ys with _ | ⟨⟨l, w⟩, ys⟩ <;> simp [sameFields]
  rw [same_iff, sameFields_iff]

end

instance : DecidableEq Json := fun a b => decidable_of_iff _ (same_iff a b)

/-! ## Dicts without repeated keys -/

mutual

/-- No dict inside binds a key twice, as no Python value does. -/
def proper : Json → Bool
  | .arr items => properList items
  | .obj fields => decide (fields.map Prod.fst).Nodup && properFields fields
  | .null | .bool _ | .int _ | .float _ | .str _ => true

def properList : List Json → Bool
  | [] => true
  | v :: rest => proper v && properList rest

/-- Every bound value is proper. -/
def properFields : List (String × Json) → Bool
  | [] => true
  | (_, v) :: rest => proper v && properFields rest

end

/-- With distinct keys a lookup finds every binding. -/
theorem get_of_mem {fields : List (String × Json)} (h : (fields.map Prod.fst).Nodup) {k : String}
    {v : Json} (hm : (k, v) ∈ fields) : get fields k = some v := by
  induction fields with
  | nil => cases hm
  | cons f rest ih =>
    obtain ⟨k', v'⟩ := f
    rw [List.map_cons, List.nodup_cons] at h
    rw [get, List.lookup_cons]
    rcases List.mem_cons.mp hm with heq | hrest
    · cases heq
      simp
    · have hne : k ≠ k' := by
        rintro rfl
        exact h.1 (List.mem_map.mpr ⟨(k, v), hrest, rfl⟩)
      rw [beq_false_of_ne hne]
      exact ih h.2 hrest

mutual

/-- A proper value equals itself. -/
theorem eq_self : ∀ v : Json, proper v = true → eq v v = true
  | .null, _ => rfl
  | .bool b, _ => by simp [eq, number?]
  | .int i, _ => by simp [eq, number?]
  | .float q, _ => by simp [eq, number?]
  | .str s, _ => by simp [eq]
  | .arr items, h => by
    rw [eq]
    exact eqList_self items (by simpa [proper] using h)
  | .obj fields, h => by
    rw [proper, Bool.and_eq_true, decide_eq_true_eq] at h
    simp only [eq, decide_true, Bool.true_and]
    exact eqFields_of_get fields fields h.2 fun k v hm => get_of_mem h.1 hm

theorem eqList_self : ∀ items : List Json, properList items = true → eqList items items = true
  | [], _ => rfl
  | v :: rest, h => by
    rw [properList, Bool.and_eq_true] at h
    rw [eqList, eq_self v h.1, eqList_self rest h.2]
    rfl

theorem eqFields_of_get : ∀ xs ys : List (String × Json), properFields xs = true →
    (∀ k v, (k, v) ∈ xs → get ys k = some v) → eqFields xs ys = true
  | [], _, _, _ => rfl
  | (k, v) :: rest, ys, h, hget => by
    rw [properFields, Bool.and_eq_true] at h
    rw [eqFields, hget k v (List.mem_cons_self ..), eqFields_of_get rest ys h.2
      fun k v hm => hget k v (List.mem_cons_of_mem _ hm)]
    simp [eq_self v h.1]

end

theorem orderList_self : ∀ items : List Json, properList items = true →
    orderList items items = some .eq
  | [], _ => rfl
  | v :: rest, h => by
    rw [properList, Bool.and_eq_true] at h
    rw [orderList, if_pos (eq_self v h.1), orderList_self rest h.2]

/-! ## Rendering with `repr` -/

/-- Two lower-case hexadecimal digits. -/
def hex2 (n : ℕ) : String :=
  let digit (d : ℕ) : Char := if d < 10 then Char.ofNat (48 + d) else Char.ofNat (87 + d)
  String.ofList [digit (n / 16 % 16), digit (n % 16)]

/-- One character inside a quoted string.  Only ASCII controls are escaped. -/
def reprChar (quote c : Char) : String :=
  if c = quote ∨ c = Char.ofNat 92 then String.ofList [Char.ofNat 92, c]
  else if c = Char.ofNat 10 then String.ofList [Char.ofNat 92, 'n']
  else if c = Char.ofNat 13 then String.ofList [Char.ofNat 92, 'r']
  else if c = Char.ofNat 9 then String.ofList [Char.ofNat 92, 't']
  else if c.toNat < 32 ∨ c.toNat = 127 then
    String.ofList [Char.ofNat 92, 'x'] ++ hex2 c.toNat
  else String.ofList [c]

/-- `repr(s)`: single quotes, unless the text holds one and no double quote. -/
def reprStr (s : String) : String :=
  let quote := if Char.ofNat 39 ∈ s.toList ∧ Char.ofNat 34 ∉ s.toList then
    Char.ofNat 34 else Char.ofNat 39
  String.ofList [quote] ++ String.join (s.toList.map (reprChar quote)) ++ String.ofList [quote]

/-- `repr` of a list of strings. -/
def reprStrs (l : List String) : String :=
  "[" ++ String.intercalate ", " (l.map reprStr) ++ "]"

section
variable (floatRepr : ℚ → String)

mutual

/-- `repr(v)`, given the text of a float. -/
def repr : Json → String
  | .null => "None"
  | .bool b => if b then "True" else "False"
  | .int i => toString i
  | .float q => floatRepr q
  | .str s => reprStr s
  | .arr items => "[" ++ String.intercalate ", " (reprList items) ++ "]"
  | .obj fields =>
    String.singleton '{' ++ String.intercalate ", " (reprFields fields) ++ String.singleton '}'

/-- The items of a list, rendered in order. -/
def reprList : List Json → List String
  | [] => []
  | v :: rest => repr v :: reprList rest

/-- The bindings of a dict, rendered in order. -/
def reprFields : List (String × Json) → List String
  | [] => []
  | (k, v) :: rest => (reprStr k ++ ": " ++ repr v) :: reprFields rest

end

end

end Json

end BbzPlatform
