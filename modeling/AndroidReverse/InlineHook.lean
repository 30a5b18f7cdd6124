import AndroidReverse.Relocate

/-!
# The registry of inline hooks

The registry of `inlineHook.c`: an array of 1024 items, one for each target,
and the calls that register a target, hook it and unhook it.

The items are the structures of the source, with the layout a 32-bit compiler
gives them. The layout matters in one place. The relocator appends to two
tables inside an item, at an index it reads from the item's `count`, and
nothing checks the index against the lengths of the tables; `setWord` puts
such a write where it lands, which may be another field or another item.

The rest of the process is what the calls touch: the code they patch, the
heap the prologues are saved in, the trampoline pages, the variables the
addresses of the trampolines are stored to, and the ranges that were handed to
`cacheflush`. These are separate memories here. What the operating system
answers to a registration is a parameter of the call, and `mprotect` succeeds.
Stopping the other threads changes none of this and is left out.
-/

namespace InlineHook

open Arm Relocate

/-- `enum ele7en_status`. -/
inductive Ele7enStatus where
  | errorUnknown
  | ok
  | errorNotInitialized
  | errorNotExecutable
  | errorNotRegistered
  | errorNotHooked
  | errorAlreadyRegistered
  | errorAlreadyHooked
  | errorSoNotFound
  | errorFunctionNotFound
deriving DecidableEq, Repr

/-- The value `REGISTERED` of `enum hook_status`. -/
def REGISTERED : Word := 0#32

/-- The value `HOOKED`. -/
def HOOKED : Word := 1#32

/-- The macro `SET_BIT0`. -/
def setBit0 (addr : Word) : Word := addr ||| 1#32

/-- The macro `CLEAR_BIT0`. -/
def clearBit0 (addr : Word) : Word := addr &&& 0xFFFFFFFE#32

/-- The macro `TEST_BIT0`. -/
def testBit0 (addr : Word) : Bool := addr &&& 1#32 != 0#32

/-! ## The items -/

/-- `struct inlineHookItem`, 33 words long. The boundary tables have 4 and 20
entries. -/
structure InlineHookItem where
  targetAddr : Word
  newAddr : Word
  protoAddr : Word
  origInstructions : Word
  origBoundaries : ℕ → Word
  trampolineBoundaries : ℕ → Word
  count : Word
  trampolineInstructions : Word
  length : Word
  status : Word
  mode : Word

/-- The content of word `k` of an item. -/
def InlineHookItem.word (item : InlineHookItem) (k : ℕ) : Word :=
  if k < 4 then
    match k with
    | 0 => item.targetAddr
    | 1 => item.newAddr
    | 2 => item.protoAddr
    | _ => item.origInstructions
  else if k < 8 then item.origBoundaries (k - 4)
  else if k < 28 then item.trampolineBoundaries (k - 8)
  else
    match k - 28 with
    | 0 => item.count
    | 1 => item.trampolineInstructions
    | 2 => item.length
    | 3 => item.status
    | _ => item.mode

/-- A write to word `k` of an item. -/
def InlineHookItem.setWord (item : InlineHookItem) (k : ℕ) (v : Word) : InlineHookItem :=
  if k < 4 then
    match k with
    | 0 => { item with targetAddr := v }
    | 1 => { item with newAddr := v }
    | 2 => { item with protoAddr := v }
    | _ => { item with origInstructions := v }
  else if k < 8 then { item with origBoundaries := Function.update item.origBoundaries (k - 4) v }
  else if k < 28 then
    { item with trampolineBoundaries := Function.update item.trampolineBoundaries (k - 8) v }
  else
    match k - 28 with
    | 0 => { item with count := v }
    | 1 => { item with trampolineInstructions := v }
    | 2 => { item with length := v }
    | 3 => { item with status := v }
    | _ => { item with mode := v }

/-- `struct inlineHookInfo`. -/
structure InlineHookInfo where
  item : ℕ → InlineHookItem
  size : ℕ

namespace InlineHookInfo

/-- Replace an item. -/
def setItem (info : InlineHookInfo) (pos : ℕ) (item : InlineHookItem) : InlineHookInfo :=
  { info with item := Function.update info.item pos item }

/-- A write to the word `k` words behind the start of item `pos`. Behind the
last item is `size`; what is behind that belongs to other objects. -/
def setWord (info : InlineHookInfo) (pos k : ℕ) (v : Word) : InlineHookInfo :=
  let j := pos + k / 33
  if j < 1024 then info.setItem j ((info.item j).setWord (k % 33) v)
  else if j = 1024 ∧ k % 33 = 0 then { info with size := v.toNat }
  else info

end InlineHookInfo

/-- What the relocator does for one boundary of item `pos`: the two stores at
index `*count`, read anew for each, and `++(*count)`. -/
def recordBoundary (pos : ℕ) (info : InlineHookInfo) (orig_pos trampoline_pos : ℕ) :
    InlineHookInfo :=
  let info := info.setWord pos (4 + (info.item pos).count.toNat) (BitVec.ofNat 32 orig_pos)
  let info := info.setWord pos (8 + (info.item pos).count.toNat) (BitVec.ofNat 32 trampoline_pos)
  info.setItem pos { info.item pos with count := (info.item pos).count + 1#32 }

/-- `findInlineHookItem`: the position of the first item of a target. -/
def findInlineHookItem (info : InlineHookInfo) (target_addr : Word) : Option ℕ :=
  (List.range info.size).find? (fun i => (info.item i).targetAddr == target_addr)

/-- `addInlineHookItem`: the position of the new item, whose content is what
the slot was left with, or `none` for `NULL`. -/
def addInlineHookItem (info : InlineHookInfo) : Option (ℕ × InlineHookInfo) :=
  if info.size ≥ 1024 then none else some (info.size, { info with size := info.size + 1 })

/-- `deleteInlineHookItem`: the last item takes the place of the deleted
one. -/
def deleteInlineHookItem (info : InlineHookInfo) (pos : ℕ) : InlineHookInfo :=
  { info.setItem pos (info.item (info.size - 1)) with size := info.size - 1 }

/-! ## The process -/

/-- The part of the process the calls read and write. -/
structure Process where
  /-- The code of the targets. -/
  code : Mem
  /-- The heap. -/
  heap : Mem
  /-- The trampoline pages that are mapped. -/
  pages : Word → Option Trampoline
  /-- The variables `proto_addr` points to. -/
  cells : Word → Word
  /-- The registry. -/
  info : InlineHookInfo
  /-- The ranges handed to `cacheflush` so far. -/
  flushed : List (Word × Word)

/-- What the system answers during one registration. -/
structure Os where
  /-- `isExecutableAddr`. -/
  isExecutableAddr : Word → Bool
  /-- The block `malloc` returns. -/
  malloc : Word
  /-- The page `mmap` returns. -/
  mmap : Word

/-- `memcpy` from one memory to another. -/
def memcpy (m : Mem) (dest : Word) (m' : Mem) (src : Word) (n : ℕ) : Mem :=
  fun a => if InBlock dest n a then m' (src + (a - dest)) else m a

/-- What `registerInlineHook` does with the item at `pos` that it was given:
the saved prologue, the trampoline and the fields. -/
def fillItem (os : Os) (target_addr new_addr proto_addr : Word) (pos : ℕ) (info : InlineHookInfo)
    (p : Process) : Process :=
  let length : ℕ := if testBit0 target_addr then 12 else 8
  let heap := memcpy p.heap os.malloc p.code (clearBit0 target_addr) length
  -- `count` is not reset
  let info := info.setItem pos
    { info.item pos with
      targetAddr := target_addr
      newAddr := new_addr
      protoAddr := proto_addr
      length := BitVec.ofNat 32 length
      origInstructions := os.malloc
      trampolineInstructions := os.mmap }
  let r := relocateInstruction (recordBoundary pos) p.code target_addr
    (fun k => heap (os.malloc + BitVec.ofNat 32 k)) length info
  { p with
    heap := heap
    pages := Function.update p.pages os.mmap (some r.1)
    info := r.2.setItem pos { r.2.item pos with status := REGISTERED } }

/-- `registerInlineHook`; `none` where the source dereferences the `NULL` of a
full registry. -/
def registerInlineHook (os : Os) (target_addr new_addr proto_addr : Word) (p : Process) :
    Option (Ele7enStatus × Process) :=
  if !os.isExecutableAddr target_addr || !os.isExecutableAddr new_addr then
    some (.errorNotExecutable, p)
  else
    match findInlineHookItem p.info target_addr with
    | some i =>
      if (p.info.item i).status = REGISTERED then some (.errorAlreadyRegistered, p)
      else if (p.info.item i).status = HOOKED then some (.errorAlreadyHooked, p)
      else some (.errorUnknown, p)
    | none =>
      (addInlineHookItem p.info).map (fun x =>
        (.ok, fillItem os target_addr new_addr proto_addr x.1 x.2 p))

/-- `doInlineUnHook`. -/
def doInlineUnHook (pos : ℕ) (p : Process) : Process :=
  let item := p.info.item pos
  let info := deleteInlineHookItem p.info pos
  -- `item` still points to the slot, which holds another item now
  let item' := info.item pos
  { p with
    code := memcpy p.code (clearBit0 item.targetAddr) p.heap item.origInstructions
      item.length.toNat
    pages := Function.update p.pages item.trampolineInstructions none
    info := info
    flushed := p.flushed
      ++ [(clearBit0 item'.targetAddr, clearBit0 item'.targetAddr + item'.length)] }

/-- `inlineUnHook`. -/
def inlineUnHook (target_addr : Word) (p : Process) : Ele7enStatus × Process :=
  match (List.range p.info.size).find? (fun i =>
      (p.info.item i).targetAddr == target_addr && (p.info.item i).status == HOOKED) with
  | some i => (.ok, doInlineUnHook i p)
  | none => (.errorNotHooked, p)

/-- The loop of `inlineUnHookAll` from position `i` on. A round either goes on
or deletes an item, so a fuel of the number of items left is enough. -/
def unHookAllLoop : (fuel i : ℕ) → Process → Process
  | 0, _, p => p
  | fuel + 1, i, p =>
    if i < p.info.size then
      if (p.info.item i).status = HOOKED then unHookAllLoop fuel i (doInlineUnHook i p)
      else unHookAllLoop fuel (i + 1) p
    else p

/-- `inlineUnHookAll`. -/
def inlineUnHookAll (p : Process) : Process := unHookAllLoop p.info.size 0 p

/-- What `doInlineHook` writes over a Thumb target: a `NOP` where the jump
would not be aligned, and the jump. -/
def thumbPatch (target_addr new_addr : Word) : List Half :=
  (if (clearBit0 target_addr).toNat % 4 ≠ 0 then [0xBF00#16] else []) ++ ldrPc new_addr

/-- `doInlineHook`. -/
def doInlineHook (pos : ℕ) (p : Process) : Process :=
  let item := p.info.item pos
  { p with
    code :=
      if testBit0 item.targetAddr then
        p.code.place 2 (clearBit0 item.targetAddr) (thumbPatch item.targetAddr item.newAddr)
      else p.code.place 4 item.targetAddr [0xE51FF004#32, item.newAddr]
    cells :=
      if item.protoAddr ≠ 0#32 then
        Function.update p.cells item.protoAddr
          (if testBit0 item.targetAddr then setBit0 item.trampolineInstructions
            else item.trampolineInstructions)
      else p.cells
    info := p.info.setItem pos { item with status := HOOKED }
    flushed := p.flushed
      ++ [(clearBit0 item.targetAddr, clearBit0 item.targetAddr + item.length)] }

/-- `inlineHook`. -/
def inlineHook (target_addr : Word) (p : Process) : Ele7enStatus × Process :=
  match findInlineHookItem p.info target_addr with
  | none => (.errorNotRegistered, p)
  | some i =>
    if (p.info.item i).status = REGISTERED then (.ok, doInlineHook i p)
    else if (p.info.item i).status = HOOKED then (.errorAlreadyHooked, p)
    else (.errorUnknown, p)

/-- `inlineHookAll`. -/
def inlineHookAll (p : Process) : Process :=
  (List.range p.info.size).foldl
    (fun p i => if (p.info.item i).status = REGISTERED then doInlineHook i p else p) p

/-! ## Calls -/

/-- A call of the interface. -/
inductive Call where
  | registerInlineHook (os : Os) (target_addr new_addr proto_addr : Word)
  | inlineHook (target_addr : Word)
  | inlineHookAll
  | inlineUnHook (target_addr : Word)
  | inlineUnHookAll

/-- The process after a call; `none` if the call crashes. -/
def Call.exec (p : Process) : Call → Option Process
  | .registerInlineHook os t n a => (InlineHook.registerInlineHook os t n a p).map Prod.snd
  | .inlineHook t => some (InlineHook.inlineHook t p).2
  | .inlineHookAll => some (InlineHook.inlineHookAll p)
  | .inlineUnHook t => some (InlineHook.inlineUnHook t p).2
  | .inlineUnHookAll => some (InlineHook.inlineUnHookAll p)

end InlineHook
