import CodeOutline.Analyzer

/-!
Analyzers in use, each with the tree that it made last. The first analyzer that claims a
document takes it.
-/

set_option autoImplicit false

namespace CodeOutline

structure Slot where
  analyzer : Analyzer
  tree : TokenTree := .empty
deriving Inhabited

abbrev Registry := List Slot

namespace Registry

/-- The analyzers whose providers the configuration allows, all with empty trees. -/
def ofConfig (c : Config) : Registry :=
  (Analyzer.all.filter (fun a => c.allows a.provider)).map (fun a => { analyzer := a })

/-- The index of the first slot whose analyzer claims the document. -/
def find (r : Registry) (d : Document) : Except Failure Nat :=
  match r.findIdx? (fun s => s.analyzer.claims d) with
  | some i => .ok i
  | none => .error (.unsupportedLanguage d.language)

def supports (r : Registry) (d : Document) : Bool := r.any (fun s => s.analyzer.claims d)

/-- The analysis of a document; no slot changes. -/
def analyze (r : Registry) (d : Document) (c : Config) : Except Failure TokenTree := do
  let i ← r.find d
  match r[i]? with
  | some slot => slot.analyzer.analyze d c
  | none => .error (.unsupportedLanguage d.language)

/-- The analysis of a document put into its slot. A failure changes no slot. -/
def refresh (r : Registry) (d : Document) (c : Config) : Except Failure (Nat × Registry) := do
  let i ← r.find d
  let t ← r.analyze d c
  return (i, r.modify i (fun slot => { slot with tree := t }))

/-- The last tree of a slot. -/
def tree? (r : Registry) (i : Nat) : Option TokenTree := (r[i]?).map (·.tree)

/-- The slot's tree after an attempt to refresh it, the empty tree for a document in a
language that is not supported. Any other failure leaves the previous tree of the slot. -/
def tokenTree (r : Registry) (d : Document) (c : Config) : TokenTree × Registry :=
  match r.refresh d c with
  | .ok (i, r) => ((r.tree? i).getD .empty, r)
  | .error (.unsupportedLanguage _) => (.empty, r)
  | .error _ =>
    match r.find d with
    | .ok i => ((r.tree? i).getD .empty, r)
    | .error _ => (.empty, r)

end Registry

/-- The language id of a path: by the configured associations, else by its extension. -/
def detectLanguage (path : RawText) (c : Config) : Option String :=
  (c.associated? path).orElse (fun _ => (Path.extension? path).bind languageOfExtension?)

end CodeOutline
