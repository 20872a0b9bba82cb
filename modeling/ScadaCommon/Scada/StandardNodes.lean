import ScadaCommon.Scada.Basic

/-!
# Node classes and standard nodes

The classes of nodes and the ids of the standard nodes that the code names.
-/

namespace ScadaCommon

inductive NodeClass where
  | object
  | variable
  | method
  | objectType
  | variableType
  | referenceType
  | dataType
  | view
deriving DecidableEq

/-- `scada::IsTypeDefinition`: the classes that derive from `TypeDefinition`. -/
def NodeClass.isTypeDefinition : NodeClass → Bool
  | .objectType | .variableType | .referenceType | .dataType => true
  | .object | .variable | .method | .view => false

namespace StandardId

def references : NodeId := .numeric 31 0
def nonHierarchicalReferences : NodeId := .numeric 32 0
def hierarchicalReferences : NodeId := .numeric 33 0
def organizes : NodeId := .numeric 35 0
def hasModellingRule : NodeId := .numeric 37 0
def hasTypeDefinition : NodeId := .numeric 40 0
def aggregates : NodeId := .numeric 44 0
def hasSubtype : NodeId := .numeric 45 0
def hasProperty : NodeId := .numeric 46 0
def folderType : NodeId := .numeric 61 0
def propertyType : NodeId := .numeric 68 0
def rootFolder : NodeId := .numeric 84 0
def modellingRuleOptionalPlaceholder : NodeId := .numeric 11508 0
def modellingRuleMandatoryPlaceholder : NodeId := .numeric 11510 0

end StandardId

end ScadaCommon
