import NativeBinding.Diagnostic

/-!
Everything that can be wrong with a declaration, one constructor for each cause. The code, kind and
wording of a fault are functions of its cause; a finding adds the place.
-/

namespace NativeBinding

inductive Fault
  -- Found while attributes are classified.
  | secondKind (first : Span)
  | secondName (first : Span)
  | initDisabled
  | innerProperty
  | unexpectedValue (tag : String)
  | unexpectedArguments (tag : String)
  | propertyNameCount
  | propertyNameType
  | propertyNameIdent (found : String)
  | propertyNameShape
  | nameType
  | unknownExportOption (label : String)
  | secondSignature
  | signatureForm
  | afterKwargs (kwargs : String)
  | secondSeparator
  | separatorAfterVarargs (varargs : String)
  | argsLiteral
  | argsPath (found : String)
  | defaultType
  | secondVarargs (varargs : String)
  | varargsAfterSeparator
  | secondKwargs (kwargs : String)
  | emptyDefault (name : String)
  | nameNotAllowed (label : String)
  -- Found while a call plan is assembled.
  | asyncFn
  | genericParameter
  | genericImpl (name : String)
  | implArgument
  | implReturn
  | unexpectedReceiver
  | missingReceiver (message : String)
  | missingClassParameter (message : String)
  | receiverNotAllowed (label : String)
  | classAttributeArguments
  | unsupportedPattern
  | unknownParameter (name : String) (isReceiver : Bool)
  | variadicConflict (name : String) (first : Span)
  | defaultOnVariadic (name : String) (first : Span)
  | secondMark (name : String) (first : Span)
  | contextHandleMark (name : String)
  | paramAfterKwargs (name kwargs : String)
  | varargsAfterKeywordOnly (name keywordOnly : String)
  | positionalAfterVarargs (name varargs : String)
  | positionalAfterKeywordOnly (name keywordOnly : String)
  | constantDispatch
  | emptyPropertyName (native label : String)
  | emptyName
  | nulInName
  | signatureNotAllowed (code message : String)
  | requiredAfterDefault (name : String)
  | signatureShape
  | nulInDoc
  deriving DecidableEq

namespace Fault

def kind : Fault → ErrorKind
  | secondKind _ | secondName _ | secondSignature | afterKwargs _ | secondSeparator
  | separatorAfterVarargs _ | secondVarargs _ | varargsAfterSeparator | secondKwargs _
  | nameNotAllowed _ | paramAfterKwargs .. | varargsAfterKeywordOnly .. | positionalAfterVarargs ..
  | positionalAfterKeywordOnly .. | requiredAfterDefault _ => .structuralConflict
  | initDisabled | innerProperty | unexpectedValue _ | unexpectedArguments _ | propertyNameCount
  | propertyNameType | propertyNameIdent _ | propertyNameShape | nameType | unknownExportOption _
  | signatureForm | argsLiteral | argsPath _ | defaultType | emptyDefault _ | defaultOnVariadic ..
  | contextHandleMark _ | constantDispatch | emptyName | nulInName | signatureNotAllowed ..
  | signatureShape | nulInDoc => .illegalAttributePlacement
  | asyncFn | genericParameter | genericImpl _ | implArgument | implReturn | unexpectedReceiver
  | receiverNotAllowed _ | classAttributeArguments | unsupportedPattern =>
      .unsupportedParameterShape
  | missingReceiver _ | missingClassParameter _ => .missingReceiver
  | unknownParameter .. => .unknownParameter
  | variadicConflict .. | secondMark .. => .attributeConflict
  | emptyPropertyName .. => .ambiguousPropertyName

def code : Fault → String
  | secondKind _ => "duplicate-binding-kind"
  | secondName _ => "duplicate-name-override"
  | initDisabled => "init-disabled"
  | innerProperty => "inner-property-attribute"
  | unexpectedValue _ | unexpectedArguments _ => "unexpected-attribute-value"
  | propertyNameCount => "property-name-count"
  | propertyNameType => "property-name-type"
  | propertyNameIdent _ => "property-name-ident"
  | propertyNameShape => "property-name-shape"
  | nameType => "name-type"
  | unknownExportOption _ => "unknown-export-option"
  | secondSignature => "duplicate-text-signature"
  | signatureForm => "text-signature-form"
  | afterKwargs _ => "args-after-kwargs"
  | secondSeparator => "duplicate-separator"
  | separatorAfterVarargs _ => "separator-after-varargs"
  | argsLiteral | argsPath _ => "args-item"
  | defaultType => "default-type"
  | secondVarargs _ => "duplicate-varargs"
  | varargsAfterSeparator => "varargs-after-separator"
  | secondKwargs _ => "duplicate-kwargs"
  | emptyDefault _ => "empty-default"
  | nameNotAllowed _ => "name-not-allowed"
  | asyncFn => "async-fn"
  | genericParameter => "generic-parameter"
  | genericImpl _ => "generic-impl"
  | implArgument => "impl-trait-argument"
  | implReturn => "impl-trait-return"
  | unexpectedReceiver => "unexpected-receiver"
  | missingReceiver _ => "missing-receiver"
  | missingClassParameter _ => "missing-class-parameter"
  | receiverNotAllowed _ => "receiver-not-allowed"
  | classAttributeArguments => "classattr-arguments"
  | unsupportedPattern => "unsupported-pattern"
  | unknownParameter .. => "unknown-parameter"
  | variadicConflict .. => "variadic-conflict"
  | defaultOnVariadic .. => "default-on-variadic"
  | secondMark .. => "duplicate-argument-attribute"
  | contextHandleMark _ => "context-handle-attribute"
  | paramAfterKwargs .. => "param-after-kwargs"
  | varargsAfterKeywordOnly .. => "varargs-after-keyword-only"
  | positionalAfterVarargs .. => "positional-after-varargs"
  | positionalAfterKeywordOnly .. => "positional-after-keyword-only"
  | constantDispatch => "const-binding-kind"
  | emptyPropertyName .. => "empty-property-name"
  | emptyName => "empty-name"
  | nulInName => "nul-in-name"
  | signatureNotAllowed code _ => code
  | requiredAfterDefault _ => "text-signature-required-after-default"
  | signatureShape => "text-signature-shape"
  | nulInDoc => "nul-in-doc"

/-- A label without its closing bracket, reopened for a name. -/
def withName (label : String) : String :=
  String.ofList label.toList.dropLast ++ "(name)]"

def message : Fault → String
  | secondKind _ => "cannot specify a second method type"
  | secondName _ => "`name` may only be specified once"
  | initDisabled => "#[init] is disabled; use #[new] to define a constructor"
  | innerProperty => "inner attribute is not supported for setter and getter"
  | unexpectedValue tag => s!"`#[{tag}]` does not take a value"
  | unexpectedArguments tag => s!"`#[{tag}]` does not take arguments"
  | propertyNameCount => "setter/getter requires one value"
  | propertyNameType => "setter/getter attribute requires str value"
  | propertyNameIdent found => s!"expected identifier for property name, found '{found}'"
  | propertyNameShape => "expected ident or string literal for property name"
  | nameType => "`name` requires a string value"
  | unknownExportOption label => s!"unknown export option `{label}`"
  | secondSignature => "text_signature attribute already specified previously"
  | signatureForm => "expected `#[text_signature = \"(...)\"]` or `#[text_signature]`"
  | afterKwargs kwargs => s!"no arguments may follow variadic keyword `{kwargs}`"
  | secondSeparator => "`*` may only be specified once"
  | separatorAfterVarargs varargs => s!"`*` not allowed after variadic positional `{varargs}`"
  | argsLiteral => "expected argument name, `name = \"default\"` or `\"*\"`"
  | argsPath found => s!"expected argument name, found `{found}`"
  | defaultType => "argument default must be a string holding an expression"
  | secondVarargs varargs => s!"variadic positional already specified as `{varargs}`"
  | varargsAfterSeparator => "variadic positional not allowed after `*`"
  | secondKwargs kwargs => s!"variadic keyword already specified as `{kwargs}`"
  | emptyDefault name => s!"default expression for `{name}` is empty"
  | nameNotAllowed label => s!"`name` not allowed with `{label}`"
  | asyncFn => "exported functions cannot be async"
  | genericParameter => "exported functions cannot have generic type parameters"
  | genericImpl name =>
      s!"exported items cannot live in a generic impl block (type parameter `{name}`)"
  | implArgument => "exported functions cannot have `impl Trait` arguments"
  | implReturn => "exported functions cannot return `impl Trait`"
  | unexpectedReceiver => "unexpected receiver"
  | missingReceiver message => message
  | missingClassParameter message => message
  | receiverNotAllowed label => s!"receiver not allowed for {label}"
  | classAttributeArguments => "class attribute methods cannot take arguments"
  | unsupportedPattern => "unsupported argument"
  | unknownParameter name _ => s!"argument attribute names unknown parameter `{name}`"
  | variadicConflict name _ =>
      s!"`{name}` cannot be both variadic positional and variadic keyword"
  | defaultOnVariadic name _ => s!"default value not allowed on variadic parameter `{name}`"
  | secondMark name _ => s!"argument `{name}` has conflicting attributes"
  | contextHandleMark name =>
      s!"runtime context parameter `{name}` cannot take argument attributes"
  | paramAfterKwargs name kwargs => s!"parameter `{name}` follows variadic keyword `{kwargs}`"
  | varargsAfterKeywordOnly name keywordOnly =>
      s!"variadic positional `{name}` follows keyword-only parameter `{keywordOnly}`"
  | positionalAfterVarargs name varargs =>
      s!"parameter `{name}` follows variadic positional `{varargs}` and must be marked " ++
        "keyword-only"
  | positionalAfterKeywordOnly name keywordOnly =>
      s!"positional parameter `{name}` follows keyword-only parameter `{keywordOnly}`"
  | constantDispatch => "constants can only be exported with #[classattr]"
  | emptyPropertyName native label =>
      s!"cannot derive a property name from `{native}`; name it explicitly with " ++
        s!"`{withName label}`"
  | emptyName => "external name must not be empty"
  | nulInName => "external name must not contain NUL"
  | signatureNotAllowed _ message => message
  | requiredAfterDefault name =>
      s!"cannot generate text_signature: required parameter `{name}` follows a parameter with a " ++
        "default"
  | signatureShape => "text_signature must start with `(` and end with `)`"
  | nulInDoc => "documentation must not contain NUL"

def notes : Fault → List String
  | secondKind first => [s!"first method type is here: {first.short}"]
  | secondName first => [s!"first name is here: {first.short}"]
  | unknownParameter name true => [s!"`{name}` is the receiver"]
  | variadicConflict name first | defaultOnVariadic name first | secondMark name first =>
      [s!"first attribute for `{name}` is here: {first.short}"]
  | _ => []

def phase : Fault → String
  | secondKind _ | secondName _ | initDisabled | innerProperty | unexpectedValue _
  | unexpectedArguments _ | propertyNameCount | propertyNameType | propertyNameIdent _
  | propertyNameShape | nameType | unknownExportOption _ | secondSignature | signatureForm
  | afterKwargs _ | secondSeparator | separatorAfterVarargs _ | argsLiteral | argsPath _
  | defaultType | secondVarargs _ | varargsAfterSeparator | secondKwargs _ | emptyDefault _
  | nameNotAllowed _ => "classify"
  | _ => "assemble"

end Fault

structure Finding where
  fault : Fault
  span : Span
  deriving DecidableEq

def Finding.diagnostic (f : Finding) : Diagnostic where
  message := f.fault.message
  kind := some f.fault.kind
  code := some f.fault.code
  phase := some f.fault.phase
  span := f.span
  notes := f.fault.notes

end NativeBinding
