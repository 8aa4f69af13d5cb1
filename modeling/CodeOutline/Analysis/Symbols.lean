import CodeOutline.Grammar.CSharp
import CodeOutline.Grammar.Cpp
import CodeOutline.Symbol

/-!
The flat symbols of C, C++ and C# documents, in document order. The bodies of functions hold
no symbols, and prototypes outside of types are left to their definitions.
-/

set_option autoImplicit false

namespace CodeOutline.Analysis.Symbols

open Syntax

def symbolAt (kind : SymbolKind) (container : Option String) (text : String)
    (name declaration : Node) : Symbol :=
  { name := text, kind, container, span := ⟨name.start.point, declaration.stop.point⟩ }

def memberKind (name owner : String) : SymbolKind :=
  let own := match Text.cutLast? [':', ':'] owner.toList with
    | some (_, rest) => String.ofList rest
    | none => owner
  if name = own then .constructor else .method

private def isDeclaredName (kind : String) : Bool :=
  ["identifier", "qualified_identifier", "destructor_name", "operator_name"].contains kind

def resolve? (isFunction : Bool) (n : Node) : Option (Node × Bool) :=
  if isDeclaredName n.kind then some (n, isFunction)
  else
    match h : n.child? "declarator" with
    | some d =>
      have := Node.sizeOf_of_child? h
      resolve? (isFunction || n.kind == "function_declarator") d
    | none =>
      if n.kind = "function_declarator" then none
      else match h : n.named with
        | [] => none
        | c :: _ =>
          have : sizeOf c < sizeOf n := Node.sizeOf_of_mem_named (by simp [h])
          resolve? isFunction c
termination_by sizeOf n

def declared (n : Node) : List (Node × Bool) :=
  (n.childrenIn "declarator").filterMap (resolve? false)

def bodyOf (n : Node) : List Node :=
  match n.child? "body" with
  | some body => body.named
  | none => []

theorem sizeOf_of_mem_bodyOf {n c : Node} (h : c ∈ bodyOf n) : sizeOf c < sizeOf n := by
  unfold bodyOf at h
  split at h
  · next body hb => exact Nat.lt_trans (Node.sizeOf_of_mem_named h) (Node.sizeOf_of_child? hb)
  · simp at h

def named (kind : SymbolKind) (container : Option String) (n : Node) : List Symbol :=
  match n.child? "name" with
  | some name => [symbolAt kind container name.text name n]
  | none => []

def fields (container : Option String) (n : Node) : List Symbol :=
  match n.first? "variable_declaration" with
  | some declaration =>
    (declaration.named.filter (·.kind == "variable_declarator")).flatMap (fun d =>
      ((d.child? "name").map (fun name =>
        symbolAt .field container name.text name n)).toList)
  | none =>
    (declared n).map (fun (name, isFunction) =>
      symbolAt (if isFunction then .method else .field) container name.text name n)

def function (container : Option String) (n : Node) : List Symbol :=
  match (n.child? "declarator").bind (resolve? false) with
  | none => []
  | some (name, _) =>
    if name.kind = "qualified_identifier" then
      match name.child? "scope", name.child? "name" with
      | some owner, some member =>
        [symbolAt (memberKind member.text owner.text) (some owner.text) member.text name n]
      | _, _ => []
    else match container with
      | some owner => [symbolAt (memberKind name.text owner) container name.text name n]
      | none => [symbolAt .function none name.text name n]

def declarators (container : Option String) (n : Node) : List Symbol :=
  (declared n).flatMap (fun (name, isFunction) =>
    match container, isFunction with
    | some owner, true => [symbolAt (memberKind name.text owner) container name.text name n]
    | some _, false => [symbolAt .field container name.text name n]
    | none, true => []
    | none, false => [symbolAt .var none name.text name n])

private def dropStarts (word : List Char) : Nat → List Char → List Char
  | 0, cs => cs
  | fuel + 1, cs =>
    match Text.dropStart? word cs with
    | some rest => dropStarts word fuel rest
    | none => cs

def usedName (text : String) : String :=
  let drop (word : String) (cs : List Char) : List Char :=
    dropStarts word.toList cs.length (Text.trimChars cs)
  let rest := drop "using" (drop "global" text.toList)
  Text.trim (Text.dropRight (· == ';') (String.ofList rest))

private def isPathMark (c : Char) : Bool := c == '<' || c == '>' || c == '"'

def entityKind? : String → Option SymbolKind
  | "class_declaration" | "record_declaration" | "class_specifier" => some .class
  | "struct_declaration" | "struct_specifier" => some .struct
  | "interface_declaration" => some .interface
  | _ => none

def isWrapper (kind : String) : Bool :=
  ["template_declaration", "linkage_specification", "declaration_list", "preproc_ifdef",
    "preproc_if", "preproc_else"].contains kind

def isMemberedType (n : Node) : Bool :=
  n.kind == "struct_specifier" || n.kind == "class_specifier"

def symbolsOf (container : Option String) (n : Node) : List Symbol :=
  match n.kind with
  | "namespace_declaration" | "file_scoped_namespace_declaration" | "namespace_definition" =>
    named .space container n ++ (bodyOf n).attach.flatMap (fun ⟨c, hc⟩ =>
      have := sizeOf_of_mem_bodyOf hc
      symbolsOf container c)
  | "using_directive" =>
    let name := usedName n.text
    if name.isEmpty then [] else [symbolAt .module container name n n]
  | "preproc_include" =>
    match n.child? "path" with
    | some path =>
      let name := Text.dropRight isPathMark (Text.dropLeft isPathMark path.text)
      [symbolAt .module container name path n]
    | none => []
  | "field_declaration" => fields container n
  | "property_declaration" => named .property container n
  | "method_declaration" => named .method container n
  | "constructor_declaration" => named .constructor container n
  | "function_definition" => function container n
  | "declaration" =>
    let inner := match h : n.child? "type" with
      | some type =>
        have := Node.sizeOf_of_child? h
        if isMemberedType type && (type.child? "body").isSome then symbolsOf container type
        else []
      | none => []
    inner ++ declarators container n
  | "type_definition" =>
    match h : n.child? "type" with
    | none => []
    | some type =>
      match (type.child? "name").orElse (fun _ => n.child? "declarator") with
      | none => []
      | some name =>
        if isMemberedType type then
          symbolAt .struct container name.text name n ::
            (bodyOf type).attach.flatMap (fun ⟨c, hc⟩ =>
              have := Nat.lt_trans (sizeOf_of_mem_bodyOf hc) (Node.sizeOf_of_child? h)
              symbolsOf (some name.text) c)
        else []
  | kind =>
    match entityKind? kind, n.child? "name" with
    | some entity, some name =>
      symbolAt entity container name.text name n :: (bodyOf n).attach.flatMap (fun ⟨c, hc⟩ =>
        have := sizeOf_of_mem_bodyOf hc
        symbolsOf (some name.text) c)
    | _, _ =>
      if isWrapper kind then
        n.named.attach.flatMap (fun ⟨c, hc⟩ =>
          have := Node.sizeOf_of_mem_named hc
          symbolsOf container c)
      else []
termination_by sizeOf n

def root? (language : String) (text : String) : Option Node :=
  match Text.lowerAscii language with
  | "c" => Grammar.Cpp.read? false text.toList
  | "cpp" => Grammar.Cpp.read? true text.toList
  | "csharp" => Grammar.CSharp.read? text.toList
  | _ => none

/-- The languages whose documents have symbols. -/
def languages : List String := ["c", "cpp", "csharp"]

def symbols? (language text : String) : Option (List Symbol) :=
  (root? language text).map (fun root => root.named.flatMap (symbolsOf none))

end CodeOutline.Analysis.Symbols
