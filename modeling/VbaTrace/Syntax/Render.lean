import VbaTrace.Decimal.Writing
import VbaTrace.Syntax.Node
import VbaTrace.Text.Quoted

/-!
The text of values and nodes. There are two forms: the display form, in which a text stands as it is,
and the quoted form, in which a text is quoted and a token list shows its labels. Inside a list every
item is in quoted form. Lists held in cells have to be resolved before they are written.
-/

set_option autoImplicit false

namespace VbaTrace

namespace Operator

/-- The sign between the operands in the text of an operation. -/
def sign : Operator → String
  | multiply => "*" | divide => "/" | floorDivide => "//" | modulo => "mod" | subtract => "-"
  | add => "+" | concatenate => "&" | xor => "^" | and => "&" | or => "|" | eqv => "Eqv"

/-- Logical operations are written without parentheses and with quoted operands. -/
def isLogical : Operator → Bool
  | xor | and | or | eqv => true
  | _ => false

end Operator

namespace Tokens

def size (t : Tokens) : Nat := t.items.length

end Tokens

namespace Value

/-- How many items a value has, when it is a text or a list of some kind. -/
def length? : Value → Option Nat
  | text s => some s.length
  | list vs => some vs.length
  | tokens t => some t.size
  | _ => none

/-- The items that a walk over the value meets, when it can be walked over. -/
def walk? : Value → Option (List Value)
  | text s => some (s.toList.map fun c ↦ text (String.singleton c))
  | list vs => some vs
  | tokens t => some t.items
  | _ => none

/-- Whether the value counts as true; lists in cells have to be resolved first. -/
def truthy : Value → Bool
  | null => false
  | bool b => b
  | int n => n != 0
  | float x => !(x == 0.0)
  | text s => !s.isEmpty
  | list vs => !vs.isEmpty
  | tokens t => !t.items.isEmpty
  | _ => true

def isNull : Value → Bool
  | null => true
  | _ => false

/-- The text of an operator field; fields of another kind read as nothing. -/
def asText : Value → String
  | text s => s
  | _ => ""

end Value

/-- Six characters of a long guard are shown. -/
def shortened (s : String) : String :=
  if s.length > 5 then String.ofList (s.toList.take 6) ++ "..." else s

def spread (sep : String) (parts : List String) : String :=
  sep.intercalate parts

/-- Operands with a sign between them, in parentheses. -/
def parenthesized (sign : String) (operands : List String) : String :=
  "(" ++ spread (" " ++ sign ++ " ") operands ++ ")"

mutual

/-- Display form for `quote = false`, quoted form for `quote = true`. -/
def Value.render (quote : Bool) : Value → String
  | .null => "None"
  | .bool b => if b then "True" else "False"
  | .int n => Decimal.writeInt n
  | .float x => Decimal.writeFloat x
  | .text s => if quote then Text.quoted s else s
  | .list vs => "[" ++ spread ", " (renderAll true vs) ++ "]"
  | .array _ => "[...]"
  | .tokens t => t.render quote
  | .node n => n.render
  | .routine r => r.name

def renderAll (quote : Bool) : List Value → List String
  | [] => []
  | v :: vs => v.render quote :: renderAll quote vs

/-- The display forms of the items of a token list: nested token lists stay in display form. -/
def renderItems : List Value → List String
  | [] => []
  | .tokens t :: vs => t.render false :: renderItems vs
  | v :: vs => v.render true :: renderItems vs

def Tokens.render (quote : Bool) : Tokens → String
  | .mk items labels =>
    if quote then
      "([" ++ spread ", " (renderAll true items) ++ "], \x7b" ++
        spread ", " (renderLabels labels) ++ "\x7d)"
    else "[" ++ spread ", " (renderItems items) ++ "]"

def renderLabels : List Label → List String
  | [] => []
  | .mk name values :: ls =>
    (Text.quoted name ++ ": [" ++ spread ", " (renderAll true values) ++ "]") :: renderLabels ls

/-- The display forms of what a walk over the value meets. -/
def renderWalk : Value → List String
  | .text s => s.toList.map String.singleton
  | .list vs => renderAll false vs
  | .tokens (.mk items _) => renderAll false items
  | _ => []

def renderDeclared : List Declared → List String
  | [] => []
  | .mk name isArray type :: ds =>
    (name.render false ++ (if isArray then "()" else "") ++
      (if type.truthy then " As " ++ type.render false else "")) :: renderDeclared ds

def renderBranches (first : Bool) : List Branch → List String
  | [] => []
  | .mk guard _ :: bs =>
    let keyword := if guard.isNull then "Else" else if first then "If" else "ElseIf"
    let shown := if guard.isNull then "" else shortened (guard.render true)
    (keyword ++ " " ++ shown ++ " Then ") :: renderBranches false bs

def renderBindings : List Binding → List String
  | [] => []
  | .mk _ value :: bs => ("  " ++ value.render true ++ "\n") :: renderBindings bs

def Node.render : Node → String
  | .chr arg => "Chr(" ++ arg.render true ++ ")"
  | .asc arg => "Asc(" ++ arg.render true ++ ")"
  | .strReverse arg => "StrReverse(" ++ arg.render true ++ ")"
  | .environ arg => "Environ(" ++ arg.render true ++ ")"
  | .simpleName name => name
  | .me => "Me"
  | .member object path last =>
    object.render false ++ String.join ((renderAll false path).map ("." ++ ·)) ++
      (if last.length?.getD 0 > 0 then "." ++ last.render false else "")
  | .call name args => name ++ "(" ++ Text.quoted (spread ", " (renderWalk args)) ++ ")"
  | .element array index => array.render false ++ "(" ++ index.render false ++ ")"
  | .operation op operands =>
    if op.isLogical then spread (" " ++ op.sign ++ " ") (renderAll true operands)
    else parenthesized op.sign (renderAll false operands)
  | .comparison lhs op rhs =>
    if !op.isNull then lhs.render true ++ " " ++ op.asText ++ " " ++ rhs.render true
    else if !lhs.isNull then lhs.render true
    else ""
  | .condition lhs op rhs =>
    if !op.isNull then
      (if lhs.isNull then "" else lhs.render true ++ " ") ++ op.asText ++ " " ++ rhs.render true
    else if !lhs.isNull then lhs.render true
    else ""
  | .new object => "New " ++ object.render true
  | .attributeLine name value => "Attribute " ++ name.render false ++ " = " ++ value.render true
  | .optionLine name => "Option " ++ name.render false
  | .parameter name type =>
    name.render false ++ (if type.truthy then " as " ++ type.render false else "")
  | .dim initial declared =>
    "Dim " ++ spread ", " (renderDeclared declared) ++
      (if initial.isNull then "" else " = " ++ initial.render false)
  | .globalVar _ _ source => "Global " ++ Text.quoted (source.render true)
  | .external name params library exported _ =>
    "External Function " ++ name.render false ++ " (" ++ params.render false ++ ") from " ++
      library.render false ++ " alias " ++ exported.render false
  | .unknown text => "Unknown statement: " ++ text.render true
  | .assign target index value =>
    "Let " ++ target.render false ++
      (if index.isNull then "" else "(" ++ index.render true ++ ")") ++ " = " ++ value.render true
  | .property target param value =>
    target.render false ++ " " ++ param.render false ++ ":=" ++ value.render false
  | .forLoop name start stop step _ =>
    "For " ++ name.render false ++ " = " ++ start.render true ++ " to " ++ stop.render true ++
      " step " ++ step.render true
  | .forEach item container _ =>
    "For Each " ++ item.render true ++ " In " ++ container.render true ++ " ..."
  | .whileLoop kind guard body =>
    "Do " ++ kind.render false ++ " " ++ guard.render false ++ "\\n" ++ body.render false ++
      "\\nLoop"
  | .doLoop kind guard body =>
    "Do\\n" ++ body.render false ++ "\\nLoop " ++ kind.render false ++ " " ++ guard.render false
  | .select subject cases =>
    subject.render false ++ String.join (renderWalk cases) ++ "End Select"
  | .selectClause subject => "Select Case " ++ subject.render false ++ "\\n "
  | .caseClause values isRange isSet _ =>
    let shown := renderWalk values
    "Case " ++
      (if isRange then spread " To " (shown.take 2)
      else if isSet then spread ", " shown
      else String.join (shown.take 1)) ++ "\\n"
  | .selectCase guard body => guard.render false ++ body.render false
  | .conditional _ branches => String.join (renderBranches true branches)
  | .callStatement name args =>
    "Call_Statement: " ++ name.render false ++ "(" ++ args.render true ++ ")"
  | .exitFor => "Exit For"
  | .exitDo => "Exit Do"
  | .exitProcedure => "Exit Function"
  | .redim item => "ReDim " ++ item.render false
  | .withBlock subject body =>
    "With " ++ subject.render false ++ "\\n" ++ body.render false ++ " End With"
  | .goto label => "Goto " ++ label.render false
  | .label label => label.render false ++ ":"
  | .onError source => source.render false
  | .openFile fileName fileId mode access =>
    "Open " ++ fileName.render false ++ " For " ++ mode.render false ++
      (if access.isNull then "" else " Access " ++ access.render false) ++
      " As " ++ fileId.render false
  | .print fileId value => "Print " ++ fileId.render false ++ ", " ++ value.render false
  | .sub name params body _ =>
    "Sub " ++ name.render false ++ " (" ++ params.render false ++ "): " ++
      Nat.repr (body.length?.getD 0) ++ " statement(s)"
  | .function name params body _ _ =>
    "Function " ++ name.render false ++ " (" ++ params.render false ++ "): " ++
      Nat.repr (body.length?.getD 0) ++ " statement(s)"
  | .codeModule name _ subs functions externals _ =>
    "Module " ++ name.render true ++ "\n" ++ String.join (renderBindings subs) ++
      String.join (renderBindings functions) ++ String.join (renderBindings externals)

end

namespace Value

/-- The text as it is shown to a reader. -/
def display (v : Value) : String := v.render false

/-- The text in which strings are quoted. -/
def quoted (v : Value) : String := v.render true

end Value

mutual

/-- The value has a text: every whole number that is shown in it has a base-ten text. -/
def Value.isWritable : Value → Bool
  | .int n => Decimal.isWritable n
  | .list vs => allWritable vs
  | .tokens (.mk items _) => allWritable items
  | .node n => n.isWritable
  | _ => true

def allWritable : List Value → Bool
  | [] => true
  | v :: vs => v.isWritable && allWritable vs

def declaredWritable : List Declared → Bool
  | [] => true
  | .mk name _ type :: ds => name.isWritable && type.isWritable && declaredWritable ds

/-- The bodies count too, although little is shown of them. -/
def branchesWritable : List Branch → Bool
  | [] => true
  | .mk guard body :: bs => guard.isWritable && body.isWritable && branchesWritable bs

def bindingsWritable : List Binding → Bool
  | [] => true
  | .mk _ value :: bs => value.isWritable && bindingsWritable bs

/-- Each node is judged by the parts that its text shows. -/
def Node.isWritable : Node → Bool
  | .chr arg | .asc arg | .strReverse arg | .environ arg | .new arg | .unknown arg
  | .optionLine arg | .selectClause arg | .redim arg | .goto arg | .label arg =>
    arg.isWritable
  | .simpleName _ | .me | .exitFor | .exitDo | .exitProcedure => true
  | .member object path last => object.isWritable && allWritable path && last.isWritable
  | .call _ args => args.isWritable
  | .element first second | .comparison first _ second | .condition first _ second
  | .attributeLine first second | .parameter first second | .select first second
  | .selectCase first second | .callStatement first second | .withBlock first second
  | .print first second | .forEach first second _ | .sub first second _ _
  | .function first second _ _ _ =>
    first.isWritable && second.isWritable
  | .operation _ operands => allWritable operands
  | .dim initial declared => initial.isWritable && declaredWritable declared
  | .globalVar _ _ (.mk items _) | .onError (.mk items _) => allWritable items
  | .external name params library exported _ =>
    name.isWritable && params.isWritable && library.isWritable && exported.isWritable
  | .assign target index value => target.isWritable && index.isWritable && value.isWritable
  | .property target param value => target.isWritable && param.isWritable && value.isWritable
  | .forLoop name start stop step _ =>
    name.isWritable && start.isWritable && stop.isWritable && step.isWritable
  | .whileLoop kind guard body | .doLoop kind guard body =>
    kind.isWritable && guard.isWritable && body.isWritable
  | .caseClause values _ _ _ => values.isWritable
  | .conditional _ branches => branchesWritable branches
  | .openFile fileName fileId mode access =>
    fileName.isWritable && fileId.isWritable && mode.isWritable && access.isWritable
  | .codeModule name _ subs functions externals _ =>
    name.isWritable && bindingsWritable subs && bindingsWritable functions &&
      bindingsWritable externals

end

theorem allWritable_iff {vs : List Value} :
    allWritable vs = true ↔ ∀ v ∈ vs, v.isWritable = true := by
  induction vs with
  | nil => simp [allWritable]
  | cons v vs ih => simp [allWritable, ih]

end VbaTrace
