import DesignLint.Diff.Script

/-!
# Tidying edit scripts

`compact` moves deletions and insertions up and down over the lines around them, so that they meet
others of their kind and merge with them; only insertions can move over kept lines.  `fuseFrom` then
puts one step in place of each run of deletions and insertions.
-/

namespace DesignLint.EditScript

/-- A step of a script with the steps before it, the last one first, and those after it. -/
structure Focus where
  before : List Step
  step : Step
  after : List Step

/-- Moves the step in focus towards the start as far as it goes.  `fuel` bounds the number of moves.
-/
def moveUp (old new : Array Text) : (fuel : Nat) → Focus → Focus
  | 0, f => f
  | fuel + 1, f =>
    match f.before, f.step with
    | .keep o i n :: before, .insert p j m =>
      let slide := commonEnd old new ⟨o, o + n⟩ ⟨j, j + m⟩
      if slide == 0 then if n == 0 then moveUp old new fuel { f with before := before } else f
      else
        let after :=
          match f.after with
          | .keep o' i' n' :: after => .keep (o' - slide) (i' - slide) (n' + slide) :: after
          | after => .keep (o + n - slide) (j + m - slide) slide :: after
        let before := if n == slide then before else .keep o i (n - slide) :: before
        moveUp old new fuel ⟨before, .insert (p - slide) (j - slide) m, after⟩
    | .keep _ _ n :: before, .delete .. =>
      if n == 0 then moveUp old new fuel { f with before := before } else f
    | .delete o n i :: before, .insert .. =>
      moveUp old new fuel ⟨before, f.step, .delete o n i :: f.after⟩
    | .insert o i n :: before, .delete .. =>
      moveUp old new fuel ⟨before, f.step, .insert o i n :: f.after⟩
    | .insert o i n :: before, .insert _ _ m =>
      moveUp old new fuel ⟨before, .insert o i (n + m), f.after⟩
    | .delete o n i :: before, .delete _ m _ =>
      moveUp old new fuel ⟨before, .delete o (n + m) i, f.after⟩
    | _, _ => f

/-- Moves the step in focus towards the end as far as it goes.  `fuel` bounds the number of moves.
-/
def moveDown (old new : Array Text) : (fuel : Nat) → Focus → Focus
  | 0, f => f
  | fuel + 1, f =>
    match f.after, f.step with
    | .keep o i n :: after, .insert p j m =>
      let slide := commonStart old new ⟨o, o + n⟩ ⟨j, j + m⟩
      if slide == 0 then if n == 0 then moveDown old new fuel { f with after := after } else f
      else
        let before :=
          match f.before with
          | .keep o' i' n' :: before => .keep o' i' (n' + slide) :: before
          | before => .keep o j slide :: before
        let after :=
          if n == slide then after else .keep (o + slide) (i + slide) (n - slide) :: after
        moveDown old new fuel ⟨before, .insert (p + slide) (j + slide) m, after⟩
    | .keep _ _ n :: after, .delete .. =>
      if n == 0 then moveDown old new fuel { f with after := after } else f
    | .delete o n i :: after, .insert .. =>
      moveDown old new fuel ⟨.delete o n i :: f.before, f.step, after⟩
    | .insert o i n :: after, .delete .. =>
      moveDown old new fuel ⟨.insert o i n :: f.before, f.step, after⟩
    | .insert _ _ m :: after, .insert o i n =>
      moveDown old new fuel ⟨f.before, .insert o i (n + m), after⟩
    | .delete _ m _ :: after, .delete o n i =>
      moveDown old new fuel ⟨f.before, .delete o (n + m) i, after⟩
    | _, _ => f

/-- Moves every step that `p` selects, from the first to the last.  `fuel` bounds the number of
steps looked at, `moves` that of the moves of one step. -/
def moveAll (old new : Array Text) (p : Step → Bool) (moves : Nat) :
    (fuel : Nat) → (before after : List Step) → List Step
  | 0, before, after => before.reverse ++ after
  | _ + 1, before, [] => before.reverse
  | fuel + 1, before, step :: after =>
    if p step then
      let f := moveDown old new moves (moveUp old new moves ⟨before, step, after⟩)
      moveAll old new p moves fuel (f.step :: f.before) f.after
    else moveAll old new p moves fuel (step :: before) after

/-- Whether a step is a deletion. -/
def isDelete : Step → Bool
  | .delete .. => true
  | _ => false

/-- Whether a step is an insertion. -/
def isInsert : Step → Bool
  | .insert .. => true
  | _ => false

/-- Moves deletions and then insertions to where they merge. -/
def compact (old new : Array Text) (steps : List Step) : List Step :=
  let moves := 2 * steps.length + old.size + new.size + 2
  let fuel := (moves + 1) * (moves + 1)
  let steps := moveAll old new isDelete moves fuel [] steps
  moveAll old new isInsert moves fuel [] steps

/-- Kept lines, deleted lines and inserted lines that have been read but not yet given out. -/
structure Pending where
  kept : Option Step
  deleted : Option Step
  inserted : Option Step

/-- The step that a run of deletions and insertions amounts to. -/
def Pending.change (p : Pending) : List Step :=
  match p.deleted, p.inserted with
  | some (.delete o n _), some (.insert _ i m) => [.replace o n i m]
  | some d, _ => [d]
  | none, some i => [i]
  | none, none => []

/-- Puts one step in place of each run of kept lines and of each run of changes. -/
def fuseFrom (p : Pending) : List Step → List Step
  | [] => p.kept.toList ++ p.change
  | .keep o i n :: steps =>
    let kept :=
      match p.kept with
      | some (.keep o' i' n') => Step.keep o' i' (n' + n)
      | _ => .keep o i n
    p.change ++ fuseFrom ⟨some kept, none, none⟩ steps
  | .delete o n i :: steps =>
    let deleted :=
      match p.deleted with
      | some (.delete o' n' i') => Step.delete o' (n' + n) i'
      | _ => .delete o n i
    p.kept.toList ++ fuseFrom ⟨none, some deleted, p.inserted⟩ steps
  | .insert o i n :: steps =>
    let inserted :=
      match p.inserted with
      | some (.insert o' i' n') => Step.insert o' i' (n' + n)
      | _ => .insert o i n
    p.kept.toList ++ fuseFrom ⟨none, p.deleted, some inserted⟩ steps
  | .replace o n i m :: steps =>
    p.kept.toList ++ p.change ++ .replace o n i m :: fuseFrom ⟨none, none, none⟩ steps

/-- The script of one text into another, tidied up. -/
def tidy (old new : Array Text) : List Step :=
  fuseFrom ⟨none, none, none⟩ (compact old new (between old new))

end DesignLint.EditScript
