import CodeOutline.Batch
import CodeOutline.Report.Tree
import CodeOutline.Token.Encoding

/-!
Reports on the outlines of files: a listing to be read, and a document for other programs.
-/

set_option autoImplicit false

namespace CodeOutline.Report

open Json (Value)

def version : String := "0.1.0"

/-- Lines with their ends. -/
def textOf (lines : List String) : String := String.join (lines.map (· ++ "\n"))

private def encode (f : FileOutline) : Value :=
  .ofFields [some ("path", .str f.path), some ("language", .str f.language),
    some ("tree", Encoding.treeIn .members f.tree), f.fault.map (fun fault => ("error", .str fault))]

/-- The report as a document. -/
def json (path : String) (files : List FileOutline) : String :=
  let document : Value := .obj [("version", .str version), ("path", .str path),
    ("files_outlined", .num (files.filter FileOutline.isOk).length),
    ("files_failed", .num (files.filter (!·.isOk)).length),
    ("files", .arr (files.map encode))]
  textOf [document.pretty 0]

private def fileLines (hasColors : Bool) (m : Markers) (f : FileOutline) : List String :=
  let language := Style.dim.paint hasColors ("(" ++ f.language ++ ")")
  match f.fault with
  | some fault =>
    ["  " ++ (Style.colored .red).paint hasColors "✗" ++ " " ++
        (Style.colored .blue).paint hasColors f.path ++ " " ++ language,
      "      " ++ (Style.colored .red).paint hasColors fault, ""]
  | none =>
    ("  " ++ (Style.strong .blue).paint hasColors f.path ++ " " ++ language) ::
      (treeLines hasColors m f.tree ++ [""])

private def summary (hasColors : Bool) (files : List FileOutline) : String :=
  let failed := (files.filter (!·.isOk)).length
  let entities := files.foldl (fun n f => n + f.tree.entityCount) 0
  let plural := if files.length = 1 then "" else "s"
  let verdict :=
    if failed = 0 then (Style.colored .green).paint hasColors "OK"
    else (Style.colored .red).paint hasColors (toString failed ++ " failed")
  "  " ++ toString files.length ++ " file" ++ plural ++ ", " ++ toString entities ++
    " entities  " ++ verdict

def pretty (hasColors : Bool) (m : Markers) (path : String) (files : List FileOutline) :
    String :=
  textOf (["", "  " ++ (Style.strong .cyan).paint hasColors "outliner" ++ " v" ++ version, "",
    "  " ++ Style.dim.paint hasColors "Outlining: " ++ path, ""] ++
    files.flatMap (fileLines hasColors m) ++ [summary hasColors files])

end CodeOutline.Report
