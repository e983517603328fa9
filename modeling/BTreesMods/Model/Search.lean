import BTreesMods.Model.Insert

/-!
# Lookup

Model of the four `search` and the three `searchAll` (`btree.hpp`, lines 178–262, 1180–1248,
2112–2170). The recursion is bounded as in `insert`.
-/

namespace BTreesMods

variable {κ : Type}

/-- `for(i = 0; i < keysNum && _comparator->compare(getKey(i), k, _recSize); ++i) ;` with `n`
turns left. -/
def Page.lowerBound (slots : ℕ) (compare : κ → κ → Bool) (k : κ) (pg : Page κ) :
    ℕ → ℕ → Except Err ℕ
  | 0, i => .ok i
  | n + 1, i => do
    let key ← pg.getKey slots i
    if compare key k then pg.lowerBound slots compare k n (i + 1) else .ok i

/-- `i < keysNum && _comparator->isEqual(k, getKey(i), _recSize)`. -/
def Page.isKeyAt (slots : ℕ) (isEqual : κ → κ → Bool) (k : κ) (pg : Page κ) (i : ℕ) :
    Except Err Bool :=
  if i < pg.keysNum then do
    let key ← pg.getKey slots i
    return isEqual k key
  else .ok false

/-- The virtual `search` of a page (lines 188–211, 1180–1206 and 2112–2129): the key that it returns, and
the statistic `_maxSearchDepth` afterwards. The derived classes compare with `isEqual` in leaves only. -/
def searchPage (T : Cfg κ) (k : κ) : ℕ → PageWrapper κ → ℕ → ℕ → TreeM κ (Option κ × ℕ)
  | 0, _, _, _ => throw .outOfFuel
  | fuel + 1, currentPage, currentDepth, maxSearchDepth => do
    let maxSearchDepth := if currentDepth > maxSearchDepth then currentDepth else maxSearchDepth
    let pg := currentPage.data
    let i ← onPages (pg.lowerBound T.slots T.compare k pg.keysNum 0)
    match T.treeType with
    | .bTree | .bStarTree => do
      let found ← onPages (pg.isKeyAt T.slots T.isEqual k i)
      if found then return (some (← onPages (pg.getKey T.slots i)), maxSearchDepth)
      else if pg.isLeaf then return (none, maxSearchDepth)
      else do
        let nextPage ← readPageFromChild T currentPage i
        searchPage T k fuel nextPage (currentDepth + 1) maxSearchDepth
    | .bPlusTree | .bStarPlusTree =>
      if pg.isLeaf then do
        let found ← onPages (pg.isKeyAt T.slots T.isEqual k i)
        if found then return (some (← onPages (pg.getKey T.slots i)), maxSearchDepth)
        else return (none, maxSearchDepth)
      else do
        let nextPage ← readPageFromChild T currentPage i
        searchPage T k fuel nextPage (currentDepth + 1) maxSearchDepth

/-- `search` (lines 178–186), with `_maxSearchDepth` afterwards. -/
def searchDepth (T : Cfg κ) (k : κ) : TreeM κ (Option κ × ℕ) := do
  let s ← get
  searchPage T k (s.lastPageNum + 1) s.rootPage 1 0

/-- `search`: the key that it returns. -/
def search (T : Cfg κ) (k : κ) : TreeM κ (Option κ) := do
  let (key, _) ← searchDepth T k
  return key

/-- The loop of `searchAll` from `i` on with `n` turns left: the final `i`, the keys found and
their amount. `countKeys` is false in the inner pages of the derived classes. -/
def searchAllLoop (T : Cfg κ) (k : κ) (visit : PageWrapper κ → List κ → TreeM κ (List κ × ℕ))
    (currentPage : PageWrapper κ) (countKeys : Bool) (first : ℕ) :
    ℕ → ℕ → List κ → ℕ → TreeM κ (ℕ × List κ × ℕ)
  | 0, i, keys, amount => return (i, keys, amount)
  | n + 1, i, keys, amount => do
    let key ← onPages (currentPage.data.getKey T.slots i)
    if i = first ∨ T.isEqual k key then do
      let (keys, amount) :=
        if countKeys && T.isEqual k key then (keys ++ [key], amount + 1) else (keys, amount)
      if !currentPage.data.isLeaf then do
        let nextPage ← readPageFromChild T currentPage i
        let (keys, found) ← visit nextPage keys
        searchAllLoop T k visit currentPage countKeys first n (i + 1) keys (amount + found)
      else searchAllLoop T k visit currentPage countKeys first n (i + 1) keys amount
    else return (i, keys, amount)

/-- The virtual `searchAll` of a page (lines 223–262, 1208–1248 and 2131–2170). -/
def searchAllPage (T : Cfg κ) (k : κ) : ℕ → PageWrapper κ → List κ → TreeM κ (List κ × ℕ)
  | 0, _, _ => throw .outOfFuel
  | fuel + 1, currentPage, keys => do
    let pg := currentPage.data
    let countKeys := match T.treeType with
      | .bTree | .bStarTree => true
      | .bPlusTree | .bStarPlusTree => pg.isLeaf
    let first ← onPages (pg.lowerBound T.slots T.compare k pg.keysNum 0)
    let (i, keys, amount) ← searchAllLoop T k (searchAllPage T k fuel) currentPage countKeys first
      (pg.keysNum - first) first keys 0
    if !pg.isLeaf then do
      let nextPage ← readPageFromChild T currentPage i
      let (keys, found) ← searchAllPage T k fuel nextPage keys
      return (keys, amount + found)
    else return (keys, amount)

/-- `searchAll` (lines 213–221): `keys` afterwards and the value returned. -/
def searchAll (T : Cfg κ) (k : κ) (keys : List κ) : TreeM κ (List κ × ℕ) := do
  let s ← get
  searchAllPage T k (s.lastPageNum + 1) s.rootPage keys

end BTreesMods
