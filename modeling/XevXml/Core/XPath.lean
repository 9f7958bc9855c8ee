import XevXml.Core.Numeral

/-!
# Expressions of XPath

The part of XPath that chooses strings and tests them. A string is a variable, a literal, a
part of a variable, or several of these one behind the other. A test is built from equations
of strings with the connectives, and its text has parentheses where the grammar of XPath asks
for them: an `or` joins tests that are joined with `and`, and an `and` joins single tests, so
every test here has one reading only.

Positions in a string start at one, and a part that reaches behind the end of the string ends
there.

## Main definitions

* `substring`: A part of a string.
* `Arg`, `Select`: Strings.
* `Test`: Tests, by the level of the grammar they belong to.
* `Test.text`, `Test.value`: How a test is written, and what it says.

## Theorems

* `substring_one`: A part of one character.
* `substring_of_le`: A part that reaches up to the end or behind it.
* `length_substring`: How long a part is.
-/

namespace XevXml.XPath

section Strings

variable {α : Type}

/-- The characters from a position on, as many as are asked for. -/
def substring (s : List α) (start length : Nat) : List α :=
  (s.take (start + length - 1)).drop (start - 1)

theorem substring_one (s : List α) (i : Nat) : substring s (i + 1) 1 = s[i]?.toList := by
  have htake : i + 1 + 1 - 1 = i + 1 := rfl
  have hdrop : i + 1 - 1 = i := rfl
  rw [substring, htake, hdrop, List.take_add_one, List.drop_append]
  by_cases hi : i < s.length
  · have hlen : (s.take i).length = i := List.length_take_of_le (Nat.le_of_lt hi)
    rw [hlen, Nat.sub_self, List.drop_zero, List.drop_of_length_le (Nat.le_of_eq hlen),
      List.nil_append]
  · rw [List.getElem?_eq_none (by omega), Option.toList_none, List.drop_nil, List.append_nil]
    exact List.drop_of_length_le (by rw [List.length_take]; omega)

/-- The beginning of a string. -/
theorem substring_front (s : List α) (n : Nat) : substring s 1 n = s.take n := by
  rw [substring, Nat.add_sub_cancel_left, Nat.sub_self, List.drop_zero]

/-- What is asked for behind the end of a string is not there. -/
theorem substring_of_le (s : List α) (i n : Nat) (h : s.length ≤ i + n) :
    substring s (i + 1) n = s.drop i := by
  have htake : i + 1 + n - 1 = i + n := by omega
  rw [substring, htake, List.take_of_length_le h]
  rfl

theorem length_substring (s : List α) (i n : Nat) :
    (substring s (i + 1) n).length = min (i + n) s.length - i := by
  have htake : i + 1 + n - 1 = i + n := by omega
  rw [substring, htake, List.length_drop, List.length_take]
  rfl

end Strings

/-- The values of the variables. -/
abbrev Env := List Char → List Char

/-- A string that is not put together. -/
inductive Arg
  | var (name : List Char)
  | literal (s : List Char)
  | substring (name : List Char) (start length : Nat)

namespace Arg

def text : Arg → List Char
  | var name => '$' :: name
  | literal s => '\'' :: s ++ ['\'']
  | substring name start length =>
      "substring($".toList ++ name ++ [',', ' '] ++ Numeral.printNat start ++ [',', ' '] ++
        Numeral.printNat length ++ [')']

def value (env : Env) : Arg → List Char
  | var name => env name
  | literal s => s
  | substring name start length => XPath.substring (env name) start length

end Arg

/-- A string that is chosen. -/
inductive Select
  | arg (a : Arg)
  | concat (first : Arg) (rest : List Arg)

namespace Select

def text : Select → List Char
  | arg a => a.text
  | concat first rest =>
      "concat(".toList ++ first.text ++ rest.flatMap (fun a => [',', ' '] ++ a.text) ++ [')']

def value (env : Env) : Select → List Char
  | arg a => a.value env
  | concat first rest => first.value env ++ rest.flatMap fun a => a.value env

end Select

/-- The levels of the grammar of tests. -/
inductive Level
  | single
  | conj
  | disj
deriving DecidableEq

/-- The tests of a level. A test that is written by others is given with what it says. -/
inductive Test : Level → Type
  | given (text : List Char) (value : Bool) : Test .single
  | boolean (n : Nat) : Test .single
  | equal (a : Arg) (s : List Char) : Test .single
  | paren (t : Test .disj) : Test .single
  | not (t : Test .disj) : Test .single
  | one (t : Test .single) : Test .conj
  | and (t : Test .conj) (u : Test .single) : Test .conj
  | all (t : Test .conj) : Test .disj
  | or (t : Test .disj) (u : Test .conj) : Test .disj

namespace Test

/-- How a test is written. -/
def text {l : Level} : Test l → List Char
  | given text _ => text
  | boolean n => "boolean(".toList ++ Numeral.printNat n ++ [')']
  | equal a s => a.text ++ " = '".toList ++ s ++ ['\'']
  | paren t => '(' :: t.text ++ [')']
  | not t => "not(".toList ++ t.text ++ [')']
  | one t => t.text
  | and t u => t.text ++ " and ".toList ++ u.text
  | all t => t.text
  | or t u => t.text ++ " or ".toList ++ u.text

/-- What a test says. A number is true if it is not zero. -/
def value (env : Env) {l : Level} : Test l → Bool
  | given _ value => value
  | boolean n => n != 0
  | equal a s => a.value env == s
  | paren t => t.value env
  | not t => !t.value env
  | one t => t.value env
  | and t u => t.value env && u.value env
  | all t => t.value env
  | or t u => t.value env || u.value env

end Test

end XevXml.XPath
