import FaultTolerance.Java.Grammar.Pattern

/-! The grammar of Java sources. A source is read in the same way whether it follows the grammar or not;
the grammar only says which sources have no syntax errors (`isWellFormed`).

An expression is an operand with operators after it, whatever their precedence. An operand is a
primary with operators in front; a primary begins with a literal, a name, a parenthesis, a type or
a new object and goes on as `afterName`, `afterPlace` and `afterValue` say. -/
namespace FaultTolerance.Java.Grammar
open Pattern Source

inductive Rule where
  | program | name | qualifiedName
  | annotationUse | annotationArguments | elementValue | modifierWord | modifier
  | type | plainType | simpleType | typeArguments | typeArgument | dimension
  | typeParameters | typeParameter | supertypes
  | declaration | classDeclaration | interfaceDeclaration | enumDeclaration | recordDeclaration
  | annotationDeclaration | moduleDirective
  | classBody | member | constructor | explicitCall | methodRest | fieldRest | interfaceMember
  | annotationMember | enumBody
  | formalParameters | parameter | receiver | declarator | declaratorName | initializer
  | block | statement | localRest | forControl | forRest | tryRest | catchClause | finallyClause
  | resource
  | expression | operand | plainOperand | lambda | suffix | parenthesized | arguments
  | primary | afterName | afterPlace | afterValue | afterDot | reference | creation
  | objectRest | arrayRest | assignment
  | switch | switchLabel | recordPattern
  deriving DecidableEq, Repr

namespace Rule

/-- A symbol and further ones that adjoin it. -/
def glued (first : String) (rest : List String) : Pattern Rule :=
  .sequence (first :: rest.map fun s => .terminal (.adjoined s))

def pattern : Rule → Pattern Rule
  | program => .many (.rule statement)
  -- Names
  | name => .oneOf [identifier, "open", "module", "record", "with", "sealed", "yield"]
  | qualifiedName => .sequence [.rule name, .many (.sequence [".", identifier])]
  -- Annotations and modifiers
  | annotationUse =>
    .sequence ["@", .rule qualifiedName, .optional (.rule annotationArguments)]
  | annotationArguments =>
    .sequence ["(", .oneOf [
      .rule elementValue,
      list (.sequence [.rule name, "=", .rule elementValue])], ")"]
  | elementValue =>
    .oneOf [.rule expression, .rule annotationUse,
      .sequence ["\x7b", list (.rule elementValue), .optional ",", "\x7d"]]
  | modifierWord =>
    .oneOf ["public", "protected", "private", "abstract", "static", "final", "strictfp",
      "default", "synchronized", "native", "transient", "volatile", "sealed",
      .sequence [.terminal (.hint "non"), .terminal (.adjoined "-"),
        .terminal (.adjoined "sealed")]]
  | modifier => .oneOf [.rule annotationUse, .rule modifierWord]
  -- Types
  | type => .sequence [.many (.rule annotationUse), .rule plainType]
  | plainType => .sequence [.rule simpleType, .many (.rule dimension)]
  | simpleType =>
    .oneOf ["void", "boolean", "byte", "short", "int", "long", "char", "float", "double",
      .sequence [identifier, .optional (.rule typeArguments),
        .many (.sequence [".", .many (.rule annotationUse), identifier,
          .optional (.rule typeArguments)])]]
  | typeArguments => .sequence ["<", list (.rule typeArgument), ">"]
  | typeArgument =>
    .sequence [.many (.rule annotationUse), .oneOf [
      .rule plainType,
      .sequence ["?", .optional (.sequence [.oneOf ["extends", "super"], .rule type])]]]
  | dimension => .sequence [.many (.rule annotationUse), "[", "]"]
  | typeParameters => .sequence ["<", separated (.rule typeParameter), ">"]
  | typeParameter =>
    .sequence [.many (.rule annotationUse), identifier,
      .optional (.sequence ["extends", .rule type, .many (.sequence ["&", .rule type])])]
  | supertypes => separated (.rule type)
  -- Types as declarations
  | declaration =>
    .oneOf [.rule classDeclaration, .rule interfaceDeclaration, .rule enumDeclaration,
      .rule recordDeclaration, .rule annotationDeclaration]
  | classDeclaration =>
    .sequence ["class", identifier, .optional (.rule typeParameters),
      .optional (.sequence ["extends", .rule type]),
      .optional (.sequence ["implements", .rule supertypes]),
      .optional (.sequence ["permits", .rule supertypes]), .rule classBody]
  | interfaceDeclaration =>
    .sequence ["interface", identifier, .optional (.rule typeParameters),
      .optional (.sequence ["extends", .rule supertypes]),
      .optional (.sequence ["permits", .rule supertypes]),
      "\x7b", .many (.rule interfaceMember), "\x7d"]
  | enumDeclaration =>
    .sequence ["enum", identifier, .optional (.sequence ["implements", .rule supertypes]),
      .rule enumBody]
  | recordDeclaration =>
    .sequence ["record", identifier, .optional (.rule typeParameters), .rule formalParameters,
      .optional (.sequence ["implements", .rule supertypes]), .rule classBody]
  | annotationDeclaration =>
    .sequence ["@", .terminal (.adjoined "interface"), identifier,
      "\x7b", .many (.rule annotationMember), "\x7d"]
  | moduleDirective =>
    let names : Pattern Rule := separated (.rule qualifiedName)
    .sequence [.oneOf [
      .sequence ["requires", .many (.oneOf ["transitive", "static"]), .rule qualifiedName],
      .sequence [.oneOf ["exports", "opens"], .rule qualifiedName,
        .optional (.sequence ["to", names])],
      .sequence ["uses", .rule qualifiedName],
      .sequence ["provides", .rule qualifiedName, "with", names]], ";"]
  -- Bodies of types
  | classBody => .sequence ["\x7b", .many (.rule member), "\x7d"]
  | member =>
    .oneOf [";", .rule block, .sequence ["static", .rule block],
      .sequence [.many (.rule modifier), .oneOf [
        .rule declaration,
        .rule constructor,
        .sequence [identifier, .rule block],
        .sequence [.rule typeParameters, .oneOf [
          .rule constructor,
          .sequence [.many (.rule annotationUse), .rule plainType, .rule methodRest]]],
        .sequence [.rule plainType, .oneOf [.rule methodRest, .rule fieldRest]]]]]
  | constructor =>
    .sequence [identifier, .rule formalParameters, .optional (.sequence ["throws",
      .rule supertypes]), "\x7b", .optional (.rule explicitCall), .many (.rule statement), "\x7d"]
  | explicitCall =>
    .sequence [.oneOf [
      .sequence [.optional (.rule typeArguments), .oneOf ["this", "super"]],
      .sequence [.rule primary, ".", .optional (.rule typeArguments), "super"]],
      .rule arguments, ";"]
  | methodRest =>
    .sequence [.rule name, .rule formalParameters, .many (.rule dimension),
      .optional (.sequence ["throws", .rule supertypes]), .oneOf [.rule block, ";"]]
  | fieldRest => .sequence [separated (.rule declarator), ";"]
  | interfaceMember =>
    .oneOf [";", .sequence [.many (.rule modifier), .oneOf [
      .rule declaration,
      .sequence [.rule typeParameters, .many (.rule annotationUse), .rule plainType,
        .rule methodRest],
      .sequence [.rule plainType, .oneOf [.rule methodRest, .rule fieldRest]]]]]
  | annotationMember =>
    .oneOf [";", .sequence [.many (.rule modifier), .oneOf [
      .rule declaration,
      .sequence [.rule plainType, .oneOf [
        .rule fieldRest,
        .sequence [.rule name, "(", ")", .many (.rule dimension),
          .optional (.sequence ["default", .rule elementValue]), ";"]]]]]]
  | enumBody =>
    .sequence ["\x7b",
      list (.sequence [.many (.rule modifier), identifier, .optional (.rule arguments),
        .optional (.rule classBody)]),
      .optional ",", .optional (.sequence [";", .many (.rule member)]), "\x7d"]
  -- Parameters and variables
  | formalParameters =>
    .sequence ["(", .optional (.oneOf [
      .sequence [.rule receiver, .optional (.sequence [",", list (.rule parameter)])],
      separated (.rule parameter)]), ")"]
  | parameter =>
    .sequence [.many (.rule modifier), .rule plainType,
      .oneOf [.rule declaratorName, .sequence ["...", .rule declarator]]]
  | receiver =>
    .sequence [.many (.rule annotationUse), .rule plainType,
      .many (.sequence [identifier, "."]), "this"]
  | declarator =>
    .sequence [.rule declaratorName, .optional (.sequence ["=", .rule initializer])]
  | declaratorName => .sequence [.rule name, .many (.rule dimension)]
  | initializer =>
    .oneOf [.rule expression,
      .sequence ["\x7b", list (.rule initializer), .optional ",", "\x7d"]]
  -- Statements
  | block => .sequence ["\x7b", .many (.rule statement), "\x7d"]
  | statement =>
    .oneOf [
      ";",
      .rule block,
      .sequence [.many (.rule annotationUse), .oneOf [
        .sequence ["package", .rule qualifiedName, ";"],
        .sequence [.optional "open", "module", .rule qualifiedName,
          "\x7b", .many (.rule moduleDirective), "\x7d"],
        .rule localRest,
        .sequence [.rule modifierWord, .many (.rule modifier), .rule localRest]]],
      .sequence ["import", .optional "static", .rule qualifiedName,
        .optional (.sequence [".", "*"]), ";"],
      .sequence [.rule plainOperand, .many (.rule suffix), ";"],
      .sequence [.rule switch, .optional (.sequence [.many (.rule suffix), ";"])],
      .sequence [identifier, ":", .rule statement],
      .sequence ["if", .rule parenthesized, .rule statement,
        .optional (.sequence ["else", .rule statement])],
      .sequence ["while", .rule parenthesized, .rule statement],
      .sequence ["do", .rule statement, "while", .rule parenthesized, ";"],
      .sequence ["for", "(", .rule forControl, ")", .rule statement],
      .sequence ["assert", .rule expression, .optional (.sequence [":", .rule expression]), ";"],
      .sequence [.oneOf ["break", "continue"], .optional identifier, ";"],
      .sequence ["return", .optional (.rule expression), ";"],
      .sequence [.oneOf ["yield", "throw"], .rule expression, ";"],
      .sequence ["synchronized", .rule parenthesized, .rule block],
      .sequence ["try", .rule tryRest]]
  | localRest =>
    .oneOf [.rule declaration, .sequence [.rule plainType, separated (.rule declarator), ";"]]
  | forControl =>
    .oneOf [
      .sequence [.many (.rule modifier), .rule plainType, .oneOf [
        .sequence [separated (.rule declarator), ";", .rule forRest],
        .sequence [.rule declaratorName, ":", .rule expression]]],
      .sequence [list (.rule expression), ";", .rule forRest]]
  | forRest => .sequence [.optional (.rule expression), ";", list (.rule expression)]
  | tryRest =>
    .oneOf [
      .sequence [.rule block, .oneOf [
        .sequence [some1 (.rule catchClause), .optional (.rule finallyClause)],
        .rule finallyClause]],
      .sequence ["(", .rule resource, .many (.sequence [";", .rule resource]), .optional ";", ")",
        .rule block, .many (.rule catchClause), .optional (.rule finallyClause)]]
  | catchClause =>
    .sequence ["catch", "(", .many (.rule modifier), .rule plainType,
      .many (.sequence ["|", .rule plainType]), .rule declaratorName, ")", .rule block]
  | finallyClause => .sequence ["finally", .rule block]
  | resource =>
    .oneOf [
      .sequence [.many (.rule modifier), .rule plainType, .rule declaratorName, "=",
        .rule expression],
      identifier,
      .sequence [.rule primary, ".", .oneOf [.rule name, "this"]]]
  -- Expressions
  | expression => .sequence [.rule operand, .many (.rule suffix)]
  | operand => .oneOf [.rule plainOperand, .rule switch]
  | plainOperand =>
    .oneOf [
      .sequence [.oneOf ["+", "-", "!", "~", "++", "--"], .rule operand],
      .sequence ["(", .rule type, .many (.sequence ["&", .rule type]), ")", .rule operand],
      .rule lambda,
      .rule primary]
  | lambda =>
    .sequence [.oneOf [.rule name, .rule formalParameters,
        .sequence ["(", separated (.rule name), ")"]],
      "->", .oneOf [.rule operand, .rule block]]
  | suffix =>
    .oneOf [
      .sequence [.oneOf ["+", "-", "*", "/", "%", "&", "|", "^", "&&", "||", "==", "!=", "<", "<=",
        "<<", ">", glued ">" ["="], glued ">" [">"], glued ">" [">", ">"]], .rule operand],
      .sequence ["?", .rule expression, ":", .rule operand],
      .sequence ["instanceof", .optional "final", .oneOf [
        .sequence [.rule type, .optional (.rule name)], .rule recordPattern]],
      "++", "--"]
  | parenthesized => .sequence ["(", .rule expression, ")"]
  | arguments => .sequence ["(", list (.rule expression), ")"]
  -- Primaries
  | primary =>
    .oneOf [
      .sequence [.oneOf [.terminal .number, .terminal .string, .terminal .character, "true",
        "false", "null", "this", .rule parenthesized], .rule afterValue],
      .sequence [.rule name, .rule afterName],
      .sequence ["super", .oneOf [
        .sequence [".", .oneOf [
          .sequence [.rule name, .rule afterName],
          .sequence ["this", .rule afterPlace],
          .sequence [.rule typeArguments, .rule name, .rule arguments, .rule afterValue]]],
        .rule reference]],
      .sequence ["new", .rule creation, .rule afterValue],
      .sequence [.rule plainType, .oneOf [
        .rule reference,
        .sequence [".", "class", .rule afterValue]]]]
  | afterName =>
    .oneOf [.rule afterPlace, .sequence [.rule arguments, .rule afterValue]]
  | afterPlace => .oneOf [.rule assignment, .rule afterValue]
  | afterValue =>
    .optional (.oneOf [
      .sequence [".", .rule afterDot],
      .sequence ["[", .rule expression, "]", .rule afterPlace],
      .rule reference])
  | afterDot =>
    .oneOf [
      .sequence [.rule name, .rule afterName],
      .sequence ["this", .rule afterPlace],
      .sequence [.rule typeArguments, .rule name, .rule arguments, .rule afterValue],
      .sequence ["super", ".", .oneOf [
        .sequence [.rule name, .rule afterName],
        .sequence ["this", .rule afterPlace],
        .sequence [.rule typeArguments, .rule name, .rule arguments, .rule afterValue]]],
      .sequence ["new", .rule objectRest, .rule afterValue]]
  | reference =>
    .sequence ["::", .optional (.rule typeArguments), .oneOf ["new", identifier],
      .rule afterValue]
  | creation =>
    .oneOf [.rule objectRest,
      .sequence [.many (.rule annotationUse), .rule simpleType, .rule arrayRest]]
  | objectRest =>
    .sequence [.many (.rule annotationUse),
      .optional (.sequence [.rule typeArguments, .many (.rule annotationUse)]),
      .rule simpleType, .rule arguments, .optional (.rule classBody)]
  | arrayRest =>
    .oneOf [
      .sequence [some1 (.sequence [.many (.rule annotationUse), "[", .rule expression, "]"]),
        .many (.rule dimension)],
      .sequence [some1 (.rule dimension), "\x7b", list (.rule initializer), .optional ",",
        "\x7d"]]
  | assignment =>
    .sequence [.oneOf ["=", "+=", "-=", "*=", "/=", "&=", "|=", "^=", "%=", "<<=",
      glued ">" [">", "="], glued ">" [">", ">", "="]], .rule operand]
  -- Switches
  | switch =>
    .sequence ["switch", .rule parenthesized, "\x7b", .oneOf [
      .many (.sequence [.rule switchLabel, ":", .many (.rule statement)]),
      .many (.sequence [.rule switchLabel, "->", .oneOf [
        .sequence [.rule expression, ";"],
        .sequence ["throw", .rule expression, ";"],
        .rule block]])], "\x7d"]
  | switchLabel =>
    .oneOf [
      .sequence ["case", .oneOf [
        .sequence [.rule plainType, .rule name],
        .rule recordPattern,
        separated (.rule expression)], .optional (.sequence ["when", .rule expression])],
      "default"]
  | recordPattern =>
    .sequence [.oneOf [.rule name, .rule simpleType], "(",
      list (.oneOf [.sequence [.rule plainType, .rule name], .rule recordPattern]), ")"]

end Rule

/-- Whether a source follows the grammar. -/
def isWellFormed (cs : List Char) : Bool := accepts Rule.pattern .program (tokens cs)

end FaultTolerance.Java.Grammar
