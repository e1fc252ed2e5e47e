import Skyline.VMM.Basic

/-!
This module contains the VMA regions of a page map.
-/

namespace VMM

def vmaAllocNode (s : State) : Except Fault (Option Nat × State) :=
  match s.nodeFreeList with
  | node :: rest => .ok (some node, { s with nodeFreeList := rest })
  | [] => do
    match ← request s with
    | (none, s) => return (none, s)
    | (some pg, s) =>
      return (some pg, { s with
        nodeFreeList := (List.range 38).map fun i => pg + (i + 1) * 104
        nodePages := pg / 4096 :: s.nodePages
      })

def vmaFreeNode (s : State) (node : Nat) : State :=
  { s with nodeFreeList := node :: s.nodeFreeList }

def regionEnd (r : Region) : Nat :=
  (r.start + r.pageCount * 4096) % 2 ^ 64

def vmaTreeFindLe (tree : List Region) (addr : Nat) : Option Region :=
  match tree with
  | [] => none
  | r :: rest =>
    match vmaTreeFindLe rest addr with
    | none => if r.start ≤ addr then some r else none
    | some best => some best

def vmaTreeFindGt (tree : List Region) (addr : Nat) : Option Region :=
  tree.find? fun r => addr < r.start

def rbFirst (tree : List Region) : Option Region :=
  tree.head?

def rbNext (tree : List Region) (node : Nat) : Option Region :=
  match tree with
  | [] => none
  | r :: rest => if r.node = node then rest.head? else rbNext rest node

def rbInsert (tree : List Region) (r : Region) : List Region :=
  match tree with
  | [] => [r]
  | x :: rest => if r.start < x.start then r :: x :: rest else x :: rbInsert rest r

def prevNode (prev : Nat) (regions : List Region) (node : Nat) : Nat :=
  match regions with
  | [] => prev
  | r :: rest => if r.node = node then prev else prevNode r.node rest node

def insertAfter (regions : List Region) (after : Nat) (r : Region) : List Region :=
  match regions with
  | [] => [r]
  | x :: rest => if x.node = after then x :: r :: rest else x :: insertAfter rest after r

def linkRegion (map : Pagemap) (head : Region) (after : Nat) (r : Region) : Pagemap :=
  { map with
    regions := if after = head.node then r :: map.regions else insertAfter map.regions after r
    vmaTree := rbInsert map.vmaTree r
  }

def unlinkRegion (map : Pagemap) (head : Region) (node : Nat) : Pagemap :=
  { map with
    vmaCursor := if map.vmaCursor = node then prevNode head.node map.regions node else map.vmaCursor
    regions := map.regions.filter fun r => r.node != node
    vmaTree := map.vmaTree.filter fun r => r.node != node
  }

def updateRegion (map : Pagemap) (node : Nat) (f : Region → Region) : Pagemap :=
  { map with
    regions := map.regions.map fun r => if r.node = node then f r else r
    vmaTree := map.vmaTree.map fun r => if r.node = node then f r else r
  }

def splitPoint (region : Region) (splitAddr : Nat) : Option Nat :=
  let split := splitAddr / 4096 * 4096
  if split ≤ region.start ∨ split ≥ regionEnd region then none else some split

def splitAt (map : Pagemap) (head region : Region) (split node : Nat) : Pagemap :=
  let tail :=
    { node, start := split, pageCount := (regionEnd region - split) / 4096, flags := region.flags }
  updateRegion (linkRegion map head region.node tail) region.node fun r =>
    { r with pageCount := (split - region.start) / 4096 }

def mergeNext (map : Pagemap) (head r : Region) (next : List Region)
    : Region × Pagemap × List Nat :=
  match next with
  | [] => (r, map, [])
  | cur :: next =>
    if regionEnd r = cur.start ∧ cur.flags = r.flags then
      let pageCount := r.pageCount + cur.pageCount
      let map := updateRegion map r.node fun r => { r with pageCount }
      let (r, map, freed) :=
        mergeNext (unlinkRegion map head cur.node) head { r with pageCount } next
      (r, map, cur.node :: freed)
    else
      (r, map, [])

def mergePrev (map : Pagemap) (head r : Region) (before : List Region) : Pagemap × List Nat :=
  match before with
  | [] => (map, [])
  | prev :: before =>
    if regionEnd prev = r.start ∧ prev.flags = r.flags then
      let pageCount := prev.pageCount + r.pageCount
      let map := updateRegion map prev.node fun r => { r with pageCount }
      let (map, freed) := mergePrev (unlinkRegion map head r.node) head
        { prev with pageCount } before
      (map, r.node :: freed)
    else
      (map, [])

def mergeAt (map : Pagemap) (head region : Region) : Pagemap × List Nat :=
  let before := map.regions.takeWhile fun r => r.node != region.node
  let next := (map.regions.dropWhile fun r => r.node != region.node).drop 1
  let (region, map, freed) := mergeNext map head region next
  let (map, freed') := mergePrev map head region before.reverse
  (map, freed ++ freed')

def lastNode (map : Pagemap) (head : Region) : Nat :=
  match map.regions.getLast? with
  | none => head.node
  | some r => r.node

def addAt (map : Pagemap) (head r : Region) : Pagemap × List Nat :=
  mergeAt (linkRegion map head (lastNode map head) r) head r

def findIn (map : Pagemap) (addr : Nat) : Option Region :=
  match map.vmaHead with
  | none => none
  | some _ =>
    let pageAddr := addr / 4096 * 4096
    match vmaTreeFindLe map.vmaTree pageAddr with
    | none => none
    | some best => if pageAddr ≥ best.start ∧ pageAddr < regionEnd best then some best else none

def findRegion (s : State) (pm addr : Nat) : Option Region :=
  findIn (s.pagemap pm) addr

def userCeil : Nat := 0x800000000000

structure Gap where
  after : Option Region
  addr : Nat
  hi : Nat
  deriving DecidableEq, Repr

def gapLo (lo : Nat) (cur : Region) : Nat :=
  if regionEnd cur < lo then lo else regionEnd cur

def gapHi (hi : Nat) (isUser : Bool) (next : Option Region) : Nat :=
  let gapHi := match next with
    | some r => r.start
    | none => hi
  if isUser && gapHi > userCeil then userCeil else gapHi

def nextFit (tree : List Region) (lo hi need : Nat) (isUser : Bool) (start : Nat) (fuel : Nat)
    (cur : Region) (isFirst : Bool) : Option Gap :=
  match fuel with
  | 0 => none
  | fuel + 1 =>
    if !isFirst && cur.node == start then
      none
    else
      let next := rbNext tree cur.node
      let gapLo := gapLo lo cur
      let gapHi := gapHi hi isUser next
      if gapHi > gapLo ∧ gapHi - gapLo ≥ need then
        some { after := some cur, addr := gapLo, hi := gapHi }
      else
        match next with
        | some r => nextFit tree lo hi need isUser start fuel r false
        | none =>
          match rbFirst tree with
          | none => none
          | some r =>
            if r.start > lo ∧ r.start - lo ≥ need then
              some { after := none, addr := lo, hi := r.start }
            else
              nextFit tree lo hi need isUser start fuel r false

def slide (gap : Gap) (need : Nat) (isUser : Bool) (rand : Nat) : Nat :=
  if isUser then
    let slideHi := if gap.hi = 0 ∨ gap.hi > userCeil then userCeil else gap.hi
    if slideHi > gap.addr ∧ slideHi - gap.addr > need then
      let slackPages := (slideHi - gap.addr - need) / 4096
      if slackPages > 0 then gap.addr + rand % slackPages * 4096 else gap.addr
    else
      gap.addr
  else
    gap.addr

def findGap (map : Pagemap) (lo hi need : Nat) (isUser : Bool) : Option Gap :=
  let startNode := match map.vmaTree.find? fun r => r.node == map.vmaCursor with
    | some r => some r
    | none => rbFirst map.vmaTree
  match startNode with
  | none => some { after := none, addr := lo, hi := if isUser then userCeil else hi }
  | some r => nextFit map.vmaTree lo hi need isUser r.node (map.vmaTree.length + 1) r true

def hintGap (tree : List Region) (lo hi need hint : Nat) : Option (Option Region × Nat) :=
  if hint ≥ lo ∧ hint ≤ hi - need then
    let prev := vmaTreeFindLe tree hint
    let prevEnd := match prev with
      | some r => if regionEnd r < lo then lo else regionEnd r
      | none => lo
    let curStart := match vmaTreeFindGt tree hint with
      | some r => r.start
      | none => hi
    if hint ≥ prevEnd ∧ hint + need ≤ curStart then some (prev, hint) else none
  else
    none

def choosePlace (map : Pagemap) (lo hi need hint : Nat) (isUser : Bool) (rand : Nat)
    : Option (Option Region × Nat) :=
  match hintGap map.vmaTree lo hi need hint with
  | some place => some place
  | none =>
    match findGap map lo hi need isUser with
    | none => none
    | some gap => some (gap.after, slide gap need isUser rand)

def windowEnd (hhdmOffset lo : Nat) : Nat :=
  if lo ≥ higherHalfZero hhdmOffset then 2 ^ 64 - 1 else 0x800000000000

def internalPlace (hhdmOffset : Nat) (map : Pagemap) (head : Region) (pageCount : Nat)
    (flags : BitVec 64) (hint rand : Nat) : Option (Nat × Nat) :=
  let need := pageCount * 4096 % 2 ^ 64
  if pageCount = 0 ∨ need / 4096 ≠ pageCount then
    none
  else
    let lo := head.start
    let hi := windowEnd hhdmOffset lo
    if lo ≥ hi ∨ need > hi - lo then
      none
    else
      match choosePlace map lo hi need hint (has flags mmUser) rand with
      | none => none
      | some (none, addr) => some (head.node, addr)
      | some (some r, addr) => some (r.node, addr)

def placeAt (map : Pagemap) (head : Region) (after : Nat) (r : Region) : Pagemap :=
  { linkRegion map head after r with vmaCursor := r.node }

def mergeRegion (s : State) (pm : Nat) (region : Region) : State :=
  match (s.pagemap pm).vmaHead with
  | none => s
  | some head =>
    if region.node = head.node then
      s
    else
      let (map, freed) := mergeAt (s.pagemap pm) head region
      freed.foldl vmaFreeNode (s.setPagemap pm map)

def removeRegion (s : State) (pm node : Nat) : State :=
  match (s.pagemap pm).vmaHead with
  | none => s
  | some head => vmaFreeNode (s.setPagemap pm (unlinkRegion (s.pagemap pm) head node)) node

def firstStart (map : Pagemap) (node start : Nat) : Pagemap :=
  { map with
    vmaHead := some { node, start, pageCount := 0, flags := 0#64 }
    regions := []
    vmaTree := []
    vmaCursor := node
  }

def moveStart (map : Pagemap) (head : Region) (start : Nat) : Pagemap :=
  { map with vmaHead := some { head with start } }

def setStart (s : State) (pm start : Nat) : Except Fault State := do
  match (s.pagemap pm).vmaHead with
  | some head => return s.setPagemap pm (moveStart (s.pagemap pm) head start)
  | none =>
    match ← vmaAllocNode s with
    | (none, s) => return s
    | (some node, s) => return s.setPagemap pm (firstStart (s.pagemap pm) node start)

def addRegion (s : State) (pm start pageCount : Nat) (flags : BitVec 64) : Except Fault State := do
  match (s.pagemap pm).vmaHead with
  | none => return s
  | some head =>
    if pageCount = 0 then
      return s
    else
      match ← vmaAllocNode s with
      | (none, s) => return s
      | (some node, s) =>
        let (map, freed) := addAt (s.pagemap pm) head { node, start, pageCount, flags }
        return freed.foldl vmaFreeNode (s.setPagemap pm map)

def splitRegion (s : State) (pm : Nat) (region : Region) (splitAddr : Nat) : Except Fault State :=
  do
  match (s.pagemap pm).vmaHead with
  | none => return s
  | some head =>
    match splitPoint region splitAddr with
    | none => return s
    | some split =>
      if region.node = head.node then
        return s
      else
        match ← vmaAllocNode s with
        | (none, s) => return s
        | (some node, s) => return s.setPagemap pm (splitAt (s.pagemap pm) head region split node)

def internalAlloc (s : State) (pm pageCount : Nat) (flags : BitVec 64) (hint rand : Nat)
    : Except Fault (Nat × State) := do
  match (s.pagemap pm).vmaHead with
  | none => if pageCount = 0 then return (0, s) else throw .null
  | some head =>
    match internalPlace s.hhdmOffset (s.pagemap pm) head pageCount flags hint rand with
    | none => return (0, s)
    | some (after, addr) =>
      match ← vmaAllocNode s with
      | (none, s) => return (0, s)
      | (some node, s) =>
        return (addr, s.setPagemap pm
          (placeAt (s.pagemap pm) head after { node, start := addr, pageCount, flags }))

end VMM
