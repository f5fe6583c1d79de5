import SecChat.Python.Base64
import SecChat.Python.Method

/-!
# JSON values as Python sees them

`Json` is what `json.loads` returns: `None`, booleans, integers, floats, strings, lists and
dictionaries.  A dictionary is the list of its items in insertion order.  The functions on it are
the ones that the modelled code applies to parsed input: `d.get(k, default)`, `d[k]`, truth
testing, `int(x)`, `str(x)` and `==`.

A float keeps its literal.  `int` of it truncates the exact decimal value, where Python rounds to a
double first; nothing below depends on the difference.
-/

namespace Py

/-- A JSON value. -/
inductive Json
  | null
  | bool (b : Bool)
  | int (i : ℤ)
  | float (lit : String)
  | str (s : String)
  | arr (xs : List Json)
  | obj (kvs : List (String × Json))
  deriving Inhabited

namespace Json

/-! ### Floats -/

/-- The digits of a literal before and after its point, and its exponent. -/
def floatParts (cs : List Char) : List Char × List Char × ℤ :=
  let mant := cs.takeWhile fun c => c ≠ 'e' ∧ c ≠ 'E'
  let exp := (cs.dropWhile fun c => c ≠ 'e' ∧ c ≠ 'E').drop 1
  let exp := if exp.head? = some '+' then exp.drop 1 else exp
  (mant.takeWhile (· ≠ '.'), (mant.dropWhile (· ≠ '.')).drop 1,
    ((String.ofList exp).toInt?).getD 0)

/-- `int(x)` of a float literal: the value truncated towards zero.  Values outside the range of a
double, and `NaN`, raise. -/
def intOfFloat (lit : String) : Except Exn ℤ :=
  let neg := lit.toList.head? = some '-'
  let cs := if neg then lit.toList.drop 1 else lit.toList
  if cs.head? = some 'I' then .error .overflowError
  else if cs.head? = some 'N' then .error (.valueError "cannot convert float NaN to integer")
  else
    let (whole, frac, exp) := floatParts cs
    if 400 < exp then .error .overflowError
    else
      let digits := Nat.ofDigitChars 10 (whole ++ frac) 0
      let shift := exp - frac.length
      let abs := if 0 ≤ shift then digits * 10 ^ shift.toNat else digits / 10 ^ (-shift).toNat
      if 2 ^ 1024 ≤ abs then .error .overflowError
      else .ok (if neg then -(abs : ℤ) else abs)

/-- Whether a float literal denotes zero. -/
def floatIsZero (lit : String) : Bool :=
  (lit.toList.takeWhile fun c => c ≠ 'e' ∧ c ≠ 'E').all fun c => c = '0' ∨ c = '.' ∨ c = '-'

/-! ### Reading -/

/-- Python's truth value. -/
def truthy : Json → Bool
  | .null => false
  | .bool b => b
  | .int i => i ≠ 0
  | .float lit => !floatIsZero lit
  | .str s => s ≠ ""
  | .arr xs => !xs.isEmpty
  | .obj kvs => !kvs.isEmpty

/-- `a or b`. -/
def orElse (a b : Json) : Json := if a.truthy then a else b

/-- `isinstance(x, dict)`. -/
def isDict : Json → Bool
  | .obj _ => true
  | _ => false

/-- `d.get(key, default)`; anything but a dictionary has no such attribute. -/
def getD (j : Json) (key : String) (default : Json) : Except Exn Json :=
  match j with
  | .obj kvs => .ok ((kvs.lookup key).getD default)
  | _ => .error .attributeError

/-- `d[key]`. -/
def getItem (j : Json) (key : String) : Except Exn Json :=
  match j with
  | .obj kvs =>
    match kvs.lookup key with
    | some v => .ok v
    | none => .error (.keyError key)
  | _ => .error .typeError

/-- The whitespace that `int` strips off a string. -/
def isSpace (c : Char) : Bool := c.isWhitespace

/-- `int(x)` of a string: surrounding whitespace, a sign, and decimal digits with single
underscores between them. -/
def intOfStr (s : String) : Except Exn ℤ :=
  let cs := ((s.toList.dropWhile isSpace).reverse.dropWhile isSpace).reverse
  let cs := if cs.head? = some '+' ∧ (cs.drop 1).head? ≠ some '-' then cs.drop 1 else cs
  match (String.ofList cs).toInt? with
  | some i => .ok i
  | none => .error (.valueError "invalid literal for int()")

/-- `int(x)`. -/
def toInt : Json → Except Exn ℤ
  | .bool b => .ok (if b then 1 else 0)
  | .int i => .ok i
  | .float lit => intOfFloat lit
  | .str s => intOfStr s
  | _ => .error .typeError

/-- `repr` of a string. -/
def reprStr (s : String) : String :=
  let quote := if s.contains '\'' ∧ ¬ s.contains '"' then '"' else '\''
  let esc (c : Char) : List Char :=
    if c = quote ∨ c = '\\' then ['\\', c]
    else if c = '\n' then ['\\', 'n']
    else if c = '\r' then ['\\', 'r']
    else if c = '\t' then ['\\', 't']
    else if c.toNat < 32 ∨ c.toNat = 127 then
      ['\\', 'x', (c.toNat / 16).digitChar, (c.toNat % 16).digitChar]
    else [c]
  String.ofList (quote :: s.toList.flatMap esc ++ [quote])

mutual
/-- `repr(x)`. -/
def repr : Json → String
  | .null => "None"
  | .bool b => if b then "True" else "False"
  | .int i => toString i
  | .float lit => lit
  | .str s => reprStr s
  | .arr xs => "[" ++ reprItems xs ++ "]"
  | .obj kvs => "\x7b" ++ reprMembers kvs ++ "\x7d"
/-- The elements of a list, separated by commas. -/
def reprItems : List Json → String
  | [] => ""
  | x :: xs => x.repr ++ (if xs.isEmpty then "" else ", ") ++ reprItems xs
/-- The items of a dictionary, separated by commas. -/
def reprMembers : List (String × Json) → String
  | [] => ""
  | (k, v) :: kvs =>
      reprStr k ++ ": " ++ v.repr ++ (if kvs.isEmpty then "" else ", ") ++ reprMembers kvs
end

/-- `str(x)`. -/
def toStr : Json → String
  | .str s => s
  | j => j.repr

/-- The string in `x`, for code that calls a method of `str` on it. -/
def asStr : Json → Except Exn String
  | .str s => .ok s
  | _ => .error .attributeError

@[simp] theorem truthy_str (s : String) : (Json.str s).truthy = decide (s ≠ "") := rfl
@[simp] theorem truthy_int (i : ℤ) : (Json.int i).truthy = decide (i ≠ 0) := rfl
@[simp] theorem toInt_int (i : ℤ) : (Json.int i).toInt = .ok i := rfl
@[simp] theorem toStr_str (s : String) : (Json.str s).toStr = s := rfl
@[simp] theorem asStr_str (s : String) : (Json.str s).asStr = .ok s := rfl

/-- `d.get(key, default)` of a key that `d[key]` finds. -/
theorem getD_of_getItem {j v d : Json} {key : String} (h : j.getItem key = .ok v) :
    j.getD key d = .ok v := by
  cases j with
  | obj kvs =>
    simp only [getItem] at h
    split at h
    · next w hw => simpa [getD, hw] using h
    · cases h
  | _ => cases h

@[simp] theorem getItem_cons (k : String) (v : Json) (kvs : List (String × Json)) (key : String) :
    (Json.obj ((k, v) :: kvs)).getItem key =
      if key = k then .ok v else (Json.obj kvs).getItem key := by
  by_cases h : key = k
  · simp [getItem, h]
  · simp [getItem, List.lookup_cons, beq_eq_false_iff_ne.mpr h, h]

@[simp] theorem getD_cons (k : String) (v : Json) (kvs : List (String × Json)) (key : String)
    (d : Json) :
    (Json.obj ((k, v) :: kvs)).getD key d = if key = k then .ok v else (Json.obj kvs).getD key d := by
  by_cases h : key = k
  · simp [getD, h]
  · simp [getD, List.lookup_cons, beq_eq_false_iff_ne.mpr h, h]

@[simp] theorem getD_nil (key : String) (d : Json) : (Json.obj []).getD key d = .ok d := rfl

/-- `int(x or 0)` of an integer is the integer. -/
@[simp] theorem toInt_orElse_int (i : ℤ) : ((Json.int i).orElse (.int 0)).toInt = .ok i := by
  by_cases h : i = 0 <;> simp [orElse, h]

/-! ### Equality -/

/-- The integer that a boolean or an integer compares as. -/
def numKey : Json → Option ℤ
  | .bool b => some (if b then 1 else 0)
  | .int i => some i
  | _ => none

mutual
/-- Python's `==`: `True` is `1`, and the order of a dictionary's items does not matter. -/
def pyEq : Json → Json → Bool
  | .null, .null => true
  | .float a, .float b => a = b
  | .str a, .str b => a = b
  | .arr xs, .arr ys => pyEqItems xs ys
  | .obj xs, .obj ys => xs.length = ys.length && pyEqMembers xs ys
  | .bool a, b => numKey b = some (if a then 1 else 0)
  | .int a, b => numKey b = some a
  | _, _ => false
/-- Equality of lists. -/
def pyEqItems : List Json → List Json → Bool
  | [], [] => true
  | x :: xs, y :: ys => x.pyEq y && pyEqItems xs ys
  | _, _ => false
/-- Every item on the left has an equal one on the right. -/
def pyEqMembers : List (String × Json) → List (String × Json) → Bool
  | [], _ => true
  | (k, v) :: xs, ys =>
      (match ys.lookup k with
        | some w => v.pyEq w
        | none => false) && pyEqMembers xs ys
end

/-! ### `sort_keys` -/

mutual
/-- Sort the items of every dictionary by key. -/
def sortKeys : Json → Json
  | .arr xs => .arr (sortItems xs)
  | .obj kvs => .obj ((sortMembers kvs).mergeSort fun a b => decide (a.1 ≤ b.1))
  | j => j
/-- Sort the dictionaries inside a list. -/
def sortItems : List Json → List Json
  | [] => []
  | x :: xs => x.sortKeys :: sortItems xs
/-- Sort the dictionaries inside a dictionary's values. -/
def sortMembers : List (String × Json) → List (String × Json)
  | [] => []
  | (k, v) :: kvs => (k, v.sortKeys) :: sortMembers kvs
end

/-! ### Values that survive a round trip through text -/

mutual
/-- No floats, and no key twice in one dictionary. -/
def Plain : Json → Prop
  | .float _ => False
  | .arr xs => PlainItems xs
  | .obj kvs => (kvs.map Prod.fst).Nodup ∧ PlainMembers kvs
  | _ => True
/-- All elements are plain. -/
def PlainItems : List Json → Prop
  | [] => True
  | x :: xs => x.Plain ∧ PlainItems xs
/-- All values are plain. -/
def PlainMembers : List (String × Json) → Prop
  | [] => True
  | (_, v) :: kvs => v.Plain ∧ PlainMembers kvs
end

@[simp] theorem plain_str (s : String) : (Json.str s).Plain := by simp [Plain]
@[simp] theorem plain_int (i : ℤ) : (Json.int i).Plain := by simp [Plain]
@[simp] theorem plain_bool (b : Bool) : (Json.bool b).Plain := by simp [Plain]
@[simp] theorem plainMembers_nil : PlainMembers [] := by simp [PlainMembers]
@[simp] theorem plainMembers_cons (k : String) (v : Json) (kvs : List (String × Json)) :
    PlainMembers ((k, v) :: kvs) ↔ v.Plain ∧ PlainMembers kvs := by simp [PlainMembers]
@[simp] theorem plain_obj (kvs : List (String × Json)) :
    (Json.obj kvs).Plain ↔ (kvs.map Prod.fst).Nodup ∧ PlainMembers kvs := by simp [Plain]

end Json

end Py
