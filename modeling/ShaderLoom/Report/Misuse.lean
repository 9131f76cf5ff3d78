import ShaderLoom.Report.Failure

/-! Mistakes in how the library is used. They are not results of a program's contents, and so they
end the step they occur in. -/
namespace ShaderLoom

inductive Misuse where
  | nodeAlreadyOwned
  | badExpressionValue
  | nodeNotInSource (id : Nat)
  | nodeNotInDestination (id : Nat)
  | notAListElement (kind : String) (id : Nat)
  | noMatchingList (owner : String) (id : Nat) (element : String)
  | duplicateReplacement (id : Nat)
  | overlappingHandlers (kind earlier : String)
  | duplicateSymbolRule
  | notAChildList (owner : Nat)
  | moduleCopy
  | alreadyCopied
  | endlessCopy
  | moduleNotCopied (name : String)
  | impossibleCast (source target : String)
  | defaultNotLast
  | tagMismatch
  | duplicateTag
  | unknownTag
  deriving DecidableEq, Repr, Inhabited

namespace Misuse

def code : Misuse → String
  | nodeAlreadyOwned => "NODE_ALREADY_OWNED"
  | badExpressionValue => "BAD_EXPRESSION_VALUE"
  | nodeNotInSource _ => "NODE_NOT_IN_SOURCE"
  | nodeNotInDestination _ => "NODE_NOT_IN_DESTINATION"
  | notAListElement _ _ => "NOT_A_LIST_ELEMENT"
  | noMatchingList _ _ _ => "NO_MATCHING_LIST"
  | duplicateReplacement _ => "DUPLICATE_REPLACEMENT"
  | overlappingHandlers _ _ => "OVERLAPPING_REPLACE_ALL"
  | duplicateSymbolRule => "DUPLICATE_SYMBOL_TRANSFORM"
  | notAChildList _ => "NOT_A_CHILD_LIST"
  | moduleCopy => "MODULE_CLONE"
  | alreadyCopied => "ALREADY_CLONED"
  | endlessCopy => "ENDLESS_CLONE"
  | moduleNotCopied _ => "TRANSFORM_DID_NOT_CLONE"
  | impossibleCast _ _ => "IMPOSSIBLE_CAST"
  | defaultNotLast => "DEFAULT_NOT_LAST"
  | tagMismatch => "TYPE_INFO_MISMATCH"
  | duplicateTag => "DUPLICATE_TYPE_INFO"
  | unknownTag => "UNREGISTERED_TYPE"

def message : Misuse → String
  | nodeAlreadyOwned => "the node already belongs to a program"
  | badExpressionValue => "cannot build an expression from this value"
  | nodeNotInSource id => s!"node {id} is not reachable from the source module"
  | nodeNotInDestination id => s!"node {id} is not owned by the destination program"
  | notAListElement kind id => s!"{kind} node {id} is not an element of a list"
  | noMatchingList owner id element => s!"{owner} node {id} has no list for {element}"
  | duplicateReplacement id => s!"node {id} already has a replacement"
  | overlappingHandlers kind earlier => s!"ReplaceAll for {kind} overlaps the handler for {earlier}"
  | duplicateSymbolRule => "a symbol transform is already installed"
  | notAChildList owner => s!"list is not a child list of node {owner}"
  | moduleCopy => "the module root is cloned with CloneModule"
  | alreadyCopied => "the module was already cloned"
  | endlessCopy => "a handler copies the node it stands for"
  | moduleNotCopied name => s!"transform {name} returned without cloning the module"
  | impossibleCast source target => s!"cast from {source} to {target} can never succeed"
  | defaultNotLast => "the default arm of a switch must be the last argument"
  | tagMismatch => "the tag names a family the value does not belong to"
  | duplicateTag => "the type already has a tag"
  | unknownTag => "the type has no tag"

def toFault (m : Misuse) : Fault := ⟨"MISUSE", m.code, m.message⟩

end Misuse
end ShaderLoom
