import DesignLint.Regex.Syntax

/-!
# Programs of regular expressions

A pattern is run as a list of instructions.  `Node.code` lays a pattern out at an address; a run
that gets to the end of its instructions has matched it.  `Node.size` is the number of
instructions (`length_code`), so that every address is known beforehand.
-/

namespace DesignLint.Regex

/-- One instruction; addresses are absolute. -/
inductive Instruction
  /-- Takes a character of a class. -/
  | one (c : CharClass)
  | check (a : Assertion)
  /-- Goes on at `first`, and at `second` if that fails. -/
  | split (first second : Nat)
  | jump (target : Nat)
  /-- Records the offset in a slot. -/
  | save (slot : Nat)
deriving Repr, Inhabited

/-- Goes on with the repetition at `more` or behind it at `done`. -/
def branch (greedy : Bool) (more done : Nat) : Instruction :=
  if greedy then .split more done else .split done more

/-- `n` copies of a piece of code of a given size, one after the other. -/
def copies (size : Nat) (piece : Nat → List Instruction) : (n : Nat) → Nat → List Instruction
  | 0, _ => []
  | n + 1, base => piece base ++ copies size piece n (base + size)

/-- `n` copies of a piece of code, each of which may instead go on at `done`. -/
def options (size : Nat) (piece : Nat → List Instruction) (greedy : Bool) (done : Nat) :
    (n : Nat) → Nat → List Instruction
  | 0, _ => []
  | n + 1, base =>
    branch greedy (base + 1) done :: piece (base + 1) ++
      options size piece greedy done n (base + 1 + size)

namespace Node

/-- The number of instructions of a pattern. -/
def size : Node → Nat
  | .empty => 0
  | .one _ => 1
  | .check _ => 1
  | .seq a b => a.size + b.size
  | .alt a b => a.size + b.size + 2
  | .loop least (some most) _ body => least * body.size + (most - least) * (body.size + 1)
  | .loop 0 none _ body => body.size + 2
  | .loop (least + 1) none _ body => (least + 1) * body.size + 1
  | .group _ body => body.size + 2

/-- The instructions of a pattern, laid out from the address `base` on. -/
def code : Node → (base : Nat) → List Instruction
  | .empty, _ => []
  | .one c, _ => [.one c]
  | .check a, _ => [.check a]
  | .seq a b, base => a.code base ++ b.code (base + a.size)
  | .alt a b, base =>
    let right := base + a.size + 2
    .split (base + 1) right :: a.code (base + 1) ++ .jump (right + b.size) :: b.code right
  | .loop least (some most) greedy body, base =>
    let rest := base + least * body.size
    let done := rest + (most - least) * (body.size + 1)
    copies body.size body.code least base ++
      options body.size body.code greedy done (most - least) rest
  | .loop 0 none greedy body, base =>
    let done := base + body.size + 2
    branch greedy (base + 1) done :: body.code (base + 1) ++
      [if body.nullable then branch greedy (base + 1) done else .jump base]
  | .loop (least + 1) none greedy body, base =>
    let last := base + least * body.size
    copies body.size body.code (least + 1) base ++
      [branch greedy last (last + body.size + 1)]
  | .group index body, base =>
    .save (2 * index) :: body.code (base + 1) ++ [.save (2 * index + 1)]

end Node

theorem length_copies {size : Nat} {piece : Nat → List Instruction}
    (h : ∀ base, (piece base).length = size) (n base : Nat) :
    (copies size piece n base).length = n * size := by
  induction n generalizing base with
  | zero => simp [copies]
  | succ n ih => simp [copies, h, ih, Nat.succ_mul, Nat.add_comm]

theorem length_options {size : Nat} {piece : Nat → List Instruction}
    (h : ∀ base, (piece base).length = size) (greedy : Bool) (done n base : Nat) :
    (options size piece greedy done n base).length = n * (size + 1) := by
  induction n generalizing base with
  | zero => simp [options]
  | succ n ih => simp [options, h, ih, Nat.succ_mul]; omega

theorem Node.length_code (p : Node) (base : Nat) : (p.code base).length = p.size := by
  fun_induction Node.size p generalizing base with
  | case1 => rfl
  | case2 => rfl
  | case3 => rfl
  | case4 a b iha ihb => simp [code, iha, ihb]
  | case5 a b iha ihb => simp [code, iha, ihb]; omega
  | case6 least most greedy body ih => simp [code, length_copies ih, length_options ih]
  | case7 greedy body ih => simp [code, ih]
  | case8 least greedy body ih => simp [code, length_copies ih]
  | case9 index body ih => simp [code, ih]

end DesignLint.Regex
