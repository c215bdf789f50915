import ReleaseAudit.Text.Blank

/-!
# Kinds of syntax nodes

The kinds that the audit asks about have a constructor each; every other kind,
named or token, keeps its spelling.
-/

namespace ReleaseAudit.Source

set_option autoImplicit false

inductive Kind where
  | compilationUnit | globalStatement | namespaceDeclaration | fileScopedNamespaceDeclaration
  | usingDirective | declarationList | comment
  | classDeclaration | structDeclaration | interfaceDeclaration | recordDeclaration
  | recordStructDeclaration | baseList | typeParameterList | typeParameter
  | fieldDeclaration | eventFieldDeclaration | propertyDeclaration | indexerDeclaration
  | methodDeclaration | constructorDeclaration | destructorDeclaration | operatorDeclaration
  | conversionOperatorDeclaration | accessorList | accessorDeclaration | arrowExpressionClause
  | parameterList | parameter | implicitParameter | modifier
  | block | localDeclarationStatement | localFunctionStatement | usingStatement
  | returnStatement | foreachStatement | variableDeclaration | variableDeclarator
  | equalsValueClause
  | objectCreationExpression | implicitObjectCreationExpression | invocationExpression
  | memberAccessExpression | conditionalAccessExpression | memberBindingExpression
  | argumentList | argument | nameColon | assignmentExpression | awaitExpression
  | parenthesizedExpression | castExpression | asExpression | conditionalExpression
  | binaryExpression | postfixUnaryExpression | arrayCreationExpression
  | implicitArrayCreationExpression | initializerExpression | lambdaExpression
  | anonymousMethodExpression
  | identifier | genericName | qualifiedName | aliasQualifiedName | predefinedType
  | other (spelling : String)
deriving DecidableEq, Repr

namespace Kind

def spelling : Kind → String
  | compilationUnit => "compilation_unit"
  | globalStatement => "global_statement"
  | namespaceDeclaration => "namespace_declaration"
  | fileScopedNamespaceDeclaration => "file_scoped_namespace_declaration"
  | usingDirective => "using_directive"
  | declarationList => "declaration_list"
  | comment => "comment"
  | classDeclaration => "class_declaration"
  | structDeclaration => "struct_declaration"
  | interfaceDeclaration => "interface_declaration"
  | recordDeclaration => "record_declaration"
  | recordStructDeclaration => "record_struct_declaration"
  | baseList => "base_list"
  | typeParameterList => "type_parameter_list"
  | typeParameter => "type_parameter"
  | fieldDeclaration => "field_declaration"
  | eventFieldDeclaration => "event_field_declaration"
  | propertyDeclaration => "property_declaration"
  | indexerDeclaration => "indexer_declaration"
  | methodDeclaration => "method_declaration"
  | constructorDeclaration => "constructor_declaration"
  | destructorDeclaration => "destructor_declaration"
  | operatorDeclaration => "operator_declaration"
  | conversionOperatorDeclaration => "conversion_operator_declaration"
  | accessorList => "accessor_list"
  | accessorDeclaration => "accessor_declaration"
  | arrowExpressionClause => "arrow_expression_clause"
  | parameterList => "parameter_list"
  | parameter => "parameter"
  | implicitParameter => "implicit_parameter"
  | modifier => "modifier"
  | block => "block"
  | localDeclarationStatement => "local_declaration_statement"
  | localFunctionStatement => "local_function_statement"
  | usingStatement => "using_statement"
  | returnStatement => "return_statement"
  | foreachStatement => "foreach_statement"
  | variableDeclaration => "variable_declaration"
  | variableDeclarator => "variable_declarator"
  | equalsValueClause => "equals_value_clause"
  | objectCreationExpression => "object_creation_expression"
  | implicitObjectCreationExpression => "implicit_object_creation_expression"
  | invocationExpression => "invocation_expression"
  | memberAccessExpression => "member_access_expression"
  | conditionalAccessExpression => "conditional_access_expression"
  | memberBindingExpression => "member_binding_expression"
  | argumentList => "argument_list"
  | argument => "argument"
  | nameColon => "name_colon"
  | assignmentExpression => "assignment_expression"
  | awaitExpression => "await_expression"
  | parenthesizedExpression => "parenthesized_expression"
  | castExpression => "cast_expression"
  | asExpression => "as_expression"
  | conditionalExpression => "conditional_expression"
  | binaryExpression => "binary_expression"
  | postfixUnaryExpression => "postfix_unary_expression"
  | arrayCreationExpression => "array_creation_expression"
  | implicitArrayCreationExpression => "implicit_array_creation_expression"
  | initializerExpression => "initializer_expression"
  | lambdaExpression => "lambda_expression"
  | anonymousMethodExpression => "anonymous_method_expression"
  | identifier => "identifier"
  | genericName => "generic_name"
  | qualifiedName => "qualified_name"
  | aliasQualifiedName => "alias_qualified_name"
  | predefinedType => "predefined_type"
  | other spelling => spelling

def known : List Kind :=
  [compilationUnit, globalStatement, namespaceDeclaration, fileScopedNamespaceDeclaration,
    usingDirective, declarationList, comment, classDeclaration, structDeclaration,
    interfaceDeclaration, recordDeclaration, recordStructDeclaration, baseList,
    typeParameterList, typeParameter, fieldDeclaration, eventFieldDeclaration,
    propertyDeclaration, indexerDeclaration, methodDeclaration, constructorDeclaration,
    destructorDeclaration, operatorDeclaration, conversionOperatorDeclaration, accessorList,
    accessorDeclaration, arrowExpressionClause, parameterList, parameter, implicitParameter,
    modifier, block, localDeclarationStatement, localFunctionStatement, usingStatement,
    returnStatement, foreachStatement, variableDeclaration, variableDeclarator,
    equalsValueClause, objectCreationExpression, implicitObjectCreationExpression,
    invocationExpression, memberAccessExpression, conditionalAccessExpression,
    memberBindingExpression, argumentList, argument, nameColon, assignmentExpression,
    awaitExpression, parenthesizedExpression, castExpression, asExpression,
    conditionalExpression, binaryExpression, postfixUnaryExpression, arrayCreationExpression,
    implicitArrayCreationExpression, initializerExpression, lambdaExpression,
    anonymousMethodExpression, identifier, genericName, qualifiedName, aliasQualifiedName,
    predefinedType]

def ofSpelling (spelling : String) : Kind :=
  (known.find? fun kind => kind.spelling == spelling).getD (other spelling)

def isThis : Kind → Bool
  | other spelling => spelling == "this" || spelling == "this_expression"
  | _ => false

def isConstruction : Kind → Bool
  | objectCreationExpression | implicitObjectCreationExpression => true
  | _ => false

/-- Expressions that may bring a new resource into being. -/
def isCreation : Kind → Bool
  | objectCreationExpression | implicitObjectCreationExpression | invocationExpression => true
  | _ => false

def isTypeDeclaration : Kind → Bool
  | classDeclaration | structDeclaration | interfaceDeclaration | recordDeclaration
  | recordStructDeclaration => true
  | _ => false

def isScope : Kind → Bool
  | constructorDeclaration | destructorDeclaration | methodDeclaration | operatorDeclaration
  | conversionOperatorDeclaration | localFunctionStatement | lambdaExpression
  | anonymousMethodExpression | propertyDeclaration | indexerDeclaration => true
  | _ => false

def isAnonymousFunction : Kind → Bool
  | lambdaExpression | anonymousMethodExpression => true
  | _ => false

def isFieldDeclaration : Kind → Bool
  | fieldDeclaration | eventFieldDeclaration => true
  | _ => false

/-- Statements, recognised by their spelling. -/
def isStatement (kind : Kind) : Bool :=
  Text.endsWith "_statement" kind.spelling

end Kind

end ReleaseAudit.Source
