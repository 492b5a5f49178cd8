import TrieArchive.Archive.Description

/-! What can be wrong with an archive, and how it is reported. -/
namespace TrieArchive

/-- The format version that is written, and the only one read. -/
def formatVersion : UInt32 := 1

/-- Content that does not describe a well-formed container. -/
inductive Corruption where
  | rootUnderWrongId (root : Id)
  | wrongSize (root : Id) (recorded held : Nat)
  | twoPositions (node : Id)
  | wrongIdentity (node : Id)
  | branchTooDeep (node : Id)
  | inconsistentSlots (node : Id)
  | misplacedValue (node : Id)
  | slotBeyondHash (node : Id)
  | smallSubtree (node : Id) (held : Nat)
  | collisionTooHigh (node : Id)
  | smallCollision (node : Id)
  | foreignHash (node : Id)
  | repeatedKey (node : Id)
  deriving DecidableEq

def Corruption.message : Corruption → String
  | .rootUnderWrongId root => "root " ++ root.short ++ " is stored under the wrong id"
  | .wrongSize root recorded held =>
    "root " ++ root.short ++ " records " ++ toString recorded ++ " values but its nodes hold " ++ toString held
  | .twoPositions node => "node " ++ node.short ++ " is reachable at two different trie positions"
  | .wrongIdentity node => "node " ++ node.short ++ " does not match its identity"
  | .branchTooDeep node => "branch " ++ node.short ++ " lies below the last hash level"
  | .inconsistentSlots node => "node " ++ node.short ++ " has slots inconsistent with its bitmaps"
  | .misplacedValue node => "node " ++ node.short ++ " stores a value outside its hash slot"
  | .slotBeyondHash node => "node " ++ node.short ++ " uses a slot beyond the hash width"
  | .smallSubtree node held =>
    "node " ++ node.short ++ " keeps a subtree of " ++ toString held ++ " value(s) that belongs inline"
  | .collisionTooHigh node => "collision node " ++ node.short ++ " sits above the last hash level"
  | .smallCollision node => "collision node " ++ node.short ++ " holds fewer than two values"
  | .foreignHash node => "collision node " ++ node.short ++ " holds a value with another hash"
  | .repeatedKey node => "collision node " ++ node.short ++ " repeats a key"

/-- Why a container could not be loaded. -/
inductive LoadError where
  | notFound (id : Id)
  | kindMismatch (id : Id) (expected found : Kind)
  | danglingReference (parent missing : Id)
  | corruption (what : Corruption)
  deriving DecidableEq

def LoadError.message : LoadError → String
  | .notFound id => "Container not found: " ++ id.hex
  | .kindMismatch id expected found =>
    "Container kind mismatch for " ++ id.hex ++ ": expected " ++ expected.name ++ ", found " ++ found.name
  | .danglingReference parent missing =>
    "Dangling reference: " ++ parent.hex ++ " refers to missing node " ++ missing.hex
  | .corruption what => "Corruption detected: " ++ what.message

end TrieArchive
