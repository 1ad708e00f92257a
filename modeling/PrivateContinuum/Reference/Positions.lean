import PrivateContinuum.Library.DepthFirst
import PrivateContinuum.Library.Dict
import PrivateContinuum.Reference.Identity

/-! The position tree of the reference model: every position is a left or a right child
of its parent, and siblings are ordered by their identifiers. -/

namespace PrivateContinuum.Reference

open PrivateContinuum.Library

structure FuguePosition where
  positionId : String
  parentPositionId : Option String
  leftChild : Bool
  canonical : Canonical positionId
  canonicalParent : ∀ parent ∈ parentPositionId, Canonical parent
  otherParent : parentPositionId ≠ some positionId

instance : DecidableEq FuguePosition := fun left right =>
  decidable_of_iff (left.positionId = right.positionId ∧
    left.parentPositionId = right.parentPositionId ∧ left.leftChild = right.leftChild) ⟨by
    cases left
    cases right
    rintro ⟨rfl, rfl, rfl⟩
    rfl, by
    rintro rfl
    exact ⟨rfl, rfl, rfl⟩⟩

/-- `__post_init__` -/
def FuguePosition.create (positionId : String) (parentPositionId : Option String)
    (leftChild : Bool) :
    Except ModelError FuguePosition := do
  let ⟨canonical⟩ ← checkCanonical positionId
  let ⟨canonicalParent⟩ ← checkAllCanonical parentPositionId.toList
  if own : parentPositionId = some positionId then throw .positionParentsItself
  else pure ⟨positionId, parentPositionId, leftChild, canonical, fun parent member =>
    canonicalParent parent (Option.mem_toList.mpr member), own⟩

/-- The bytes of `canonical_id`, by which siblings are ordered. -/
def FuguePosition.key (position : FuguePosition) : Bytes := position.canonical.bytes

/-- Which of two positions was moved up last, in `compare`. -/
inductive Climber where
  | a
  | b
deriving DecidableEq

structure FuguePositionTree where
  positions : Dict String FuguePosition
deriving DecidableEq

namespace FuguePositionTree

/-- `self.positions[position_id]` -/
def lookup (tree : FuguePositionTree) (positionId : String) : Except ModelError FuguePosition :=
  match tree.positions.get positionId with
  | some position => .ok position
  | none => .error (.keyError positionId)

def parentsOf (tree : FuguePositionTree) (positionId : String) :
    Except ModelError (List String) := do
  let position ← tree.lookup positionId
  pure position.parentPositionId.toList

/-- The recursion `visit` of `validate`. -/
def ascent (tree : FuguePositionTree) : Ascent String ModelError :=
  ⟨tree.parentsOf, .positionCycle, .exhausted⟩

def validate (tree : FuguePositionTree) : Except ModelError Unit := do
  forM tree.positions.values fun position =>
    if position.parentPositionId.any (· ∉ tree.positions.keys) then throw .positionParentMissing
      else pure ()
  let _ ← tree.ascent.visitAll tree.positions.keys
  pure ()

def merge (tree other : FuguePositionTree) : Except ModelError FuguePositionTree := do
  let merged ← tree.positions.keepAll .positionCollision other.positions
  let result : FuguePositionTree := ⟨merged⟩
  result.validate
  pure result

/-- The loop of `_depth`, with room for a way through all positions. -/
def depthFrom (tree : FuguePositionTree) : Nat → Nat → FuguePosition → Except ModelError Nat
  | 0, _, _ => .error .exhausted
  | fuel + 1, depth, current =>
    match current.parentPositionId with
    | none => .ok depth
    | some parent => do
      let above ← tree.lookup parent
      depthFrom tree fuel (depth + 1) above

/-- `_depth` -/
def depth (tree : FuguePositionTree) (positionId : String) : Except ModelError Nat := do
  let current ← tree.lookup positionId
  tree.depthFrom tree.positions.keys.length 1 current

/-- The loop of `_is_ancestor`. -/
def isAncestorFrom (tree : FuguePositionTree) (ancestorId : String) :
    Nat → Option String → Except ModelError Bool
  | _, none => .ok false
  | 0, some _ => .error .exhausted
  | fuel + 1, some currentId =>
    if currentId = ancestorId then .ok true
    else do
      let current ← tree.lookup currentId
      isAncestorFrom tree ancestorId fuel current.parentPositionId

/-- `_is_ancestor` -/
def isAncestor (tree : FuguePositionTree) (ancestorId descendantId : String) :
    Except ModelError Bool :=
  tree.isAncestorFrom ancestorId tree.positions.keys.length (some descendantId)

/-- The loops that bring the deeper position up to the depth of the other one. -/
def climb (tree : FuguePositionTree) (climber : Climber) :
    Nat → String → Option (Climber × Bool) → Except ModelError (String × Option (Climber × Bool))
  | 0, positionId, lastMove => .ok (positionId, lastMove)
  | steps + 1, positionId, _ => do
    let position ← tree.lookup positionId
    match position.parentPositionId with
    | none => throw .invalidPositionDepth
    | some parent => climb tree climber steps parent (some (climber, position.leftChild))

/-- The loop that brings both positions up to children of one parent. -/
def toSiblings (tree : FuguePositionTree) :
    Nat → String → String → Except ModelError (FuguePosition × FuguePosition)
  | 0, _, _ => .error .exhausted
  | fuel + 1, aId, bId => do
    let a ← tree.lookup aId
    let b ← tree.lookup bId
    if a.parentPositionId = b.parentPositionId then pure (a, b)
    else
      match a.parentPositionId, b.parentPositionId with
      | some aParent, some bParent => toSiblings tree fuel aParent bParent
      | _, _ => throw .noCommonRoot

def compare (tree : FuguePositionTree) (leftId rightId : String) : Except ModelError Int :=
  if leftId = rightId then .ok 0
  else if leftId ∉ tree.positions.keys ∨ rightId ∉ tree.positions.keys then .error .comparingUnknown
  else do
    let aDepth ← tree.depth leftId
    let bDepth ← tree.depth rightId
    let (aId, lastMove) ← tree.climb .a (aDepth - bDepth) leftId none
    let (bId, lastMove) ← tree.climb .b (bDepth - aDepth) rightId lastMove
    if aId = bId then
      match lastMove with
      | none => throw .invalidAncestorComparison
      | some (descendant, isLeft) =>
        pure ((if descendant = .a then 1 else -1) * (if isLeft then -1 else 1))
    else
      let (a, b) ← tree.toSiblings tree.positions.keys.length aId bId
      if a.leftChild ≠ b.leftChild then pure (if a.leftChild then -1 else 1)
      else pure (if a.key < b.key then -1 else 1)

/-- Refuses two positions, where both are given, unless the first sorts before the second. -/
def checkBefore (tree : FuguePositionTree) (failure : ModelError) (left right : Option String) :
    Except ModelError Unit :=
  match left, right with
  | some leftId, some rightId => do
    let order ← tree.compare leftId rightId
    if order ≥ 0 then throw failure else pure ()
  | _, _ => .ok ()

/-- `left_is_ancestor` of `create_between`: what is not given on the left is above all. -/
def leftIsAncestor (tree : FuguePositionTree) (left right : Option String) :
    Except ModelError Bool :=
  match left, right with
  | _, none => .ok false
  | none, some _ => .ok true
  | some leftId, some rightId => tree.isAncestor leftId rightId

def createBetween (tree : FuguePositionTree) (positionId : String) (left right : Option String) :
    Except ModelError FuguePositionTree := do
  let _ ← canonicalId positionId
  if positionId ∈ tree.positions.keys then throw .positionExists
  if (left.toList ++ right.toList).any (· ∉ tree.positions.keys) then throw .unknownNeighbor
  tree.checkBefore .leftNotBeforeRight left right
  let leftChild ← tree.leftIsAncestor left right
  let position ← FuguePosition.create positionId (if leftChild then right else left) leftChild
  let result : FuguePositionTree := ⟨tree.positions.set positionId position⟩
  result.validate
  result.checkBefore .createdNotAfterLeft left (some positionId)
  result.checkBefore .createdNotBeforeRight (some positionId) right
  pure result

/-- Puts a position in front of the first one that it sorts before. -/
def insertSorted (tree : FuguePositionTree) (positionId : String) :
    List String → Except ModelError (List String)
  | [] => .ok [positionId]
  | next :: rest => do
    let order ← tree.compare positionId next
    if order < 0 then pure (positionId :: next :: rest)
    else do
      let later ← insertSorted tree positionId rest
      pure (next :: later)

/-- `sorted` with `cmp_to_key` keeps the order of what `compare` does not tell apart. -/
def sortedPositions (tree : FuguePositionTree) (positionIds : List String) :
    Except ModelError (List String) :=
  if ¬ positionIds.Nodup then .error .duplicateActivePosition
  else positionIds.foldlM (fun sorted positionId => tree.insertSorted positionId sorted) []

end FuguePositionTree

end PrivateContinuum.Reference
