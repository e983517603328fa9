import BTreesMods.Model.Search

/-!
# DOT output

Model of the two `writeDot` (`btree.hpp`, lines 689–698 and 1099–1131). A page is printed as a node
statement with the code of the page, followed by what its children print, each with an edge statement
after it. The recursion is bounded as in `insert`.
-/

namespace BTreesMods

variable {κ : Type}

/-- A statement of the printed graph. -/
inductive DotLine
  | node (code : String) (keys : List String)
  | edge (code : String) (c : ℕ) (childCode : String)
deriving DecidableEq, Repr

/-- The ports and keys of the label of a node: `i` is the number of the next port. -/
def dotLabel : ℕ → List String → String
  | i, [] => "<c" ++ toString i ++ ">"
  | i, key :: keys => "<c" ++ toString i ++ ">|" ++ key ++ "|" ++ dotLabel (i + 1) keys

/-- The text of a statement. -/
def DotLine.text : DotLine → String
  | .node code keys => code ++ "[label = \"" ++ dotLabel 0 keys ++ "\"];\n"
  | .edge code c childCode =>
    "\"" ++ code ++ "\": c" ++ toString c ++ " -> \"" ++ childCode ++ "\"\n"

/-- The text of the whole output. -/
def dotText (lines : List DotLine) : String :=
  "digraph btree \x7b\nnode [shape = record, height = .1];\n" ++
    String.join (lines.map DotLine.text) ++ "\x7d\n"

/-- The keys of the label, from `i` on with `n` turns left. -/
def dotKeys (T : Cfg κ) (print : κ → String) (pg : Page κ) : ℕ → ℕ → Except Err (List String)
  | 0, _ => .ok []
  | n + 1, i => do
    let key ← pg.getKey T.slots i
    let keys ← dotKeys T print pg n (i + 1)
    return print key :: keys

/-- The loop over the children of a page, from `i` on with `n` turns left. -/
def dotChildren (T : Cfg κ) (writeChild : PageWrapper κ → String → TreeM κ (List DotLine))
    (pw : PageWrapper κ) (code : String) : ℕ → ℕ → TreeM κ (List DotLine)
  | 0, _ => return []
  | n + 1, i => do
    let childCode := code ++ toString i
    let child ← readPageFromChild T pw i
    let lines ← writeChild child childCode
    let rest ← dotChildren T writeChild pw code n (i + 1)
    return lines ++ .edge code i childCode :: rest

/-- `PageWrapper::writeDot` (lines 1099–1131). -/
def PageWrapper.writeDot (T : Cfg κ) (keyPrinter : Option (κ → String)) :
    ℕ → PageWrapper κ → String → TreeM κ (List DotLine)
  | 0, _, _ => throw .outOfFuel
  | fuel + 1, pw, code =>
    match keyPrinter with
    | none => throw (.runtimeError "Key printer not set. Can't print")
    | some print => do
      let keys ← onPages (dotKeys T print pw.data pw.data.keysNum 0)
      let node := DotLine.node code keys
      if pw.data.isLeaf then return [node]
      else do
        let below ← dotChildren T (PageWrapper.writeDot T keyPrinter fuel) pw code
          (pw.data.keysNum + 1) 0
        return node :: below

/-- `writeDot` (lines 689–698): the text that is printed. -/
def writeDot (T : Cfg κ) (keyPrinter : Option (κ → String)) : TreeM κ String := do
  match keyPrinter with
  | none => throw (.runtimeError "Key printer not set. Can't print")
  | some _ => do
    let s ← get
    let lines ← PageWrapper.writeDot T keyPrinter (s.lastPageNum + 1) s.rootPage "node0"
    return dotText lines

end BTreesMods
