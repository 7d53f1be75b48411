import Mathlib.Data.List.Basic

/-!
# Wdutf.Bitmap.Model — the bitmap routines of `src/bitmap.cpp`

A shallow embedding of the run-time library bitmaps. The state is the
`RTL_BITMAP` header together with the words it points to; every routine is an
`EStateM` action on it, so that a failed `DDKASSERT` and an access to a word
the bitmap does not own are visible, with the buffer as it was left.

* `Ulong` is the 32-bit `ULONG`: sums wrap, and `1 << n` uses `n` modulo 32,
  as the shift instructions of the supported processors do.
* `getWord` and `modifyWord` are the only accesses to the buffer.
* A `for` loop over a `ULONG` runs through the list of the values its counter
  takes (`ulongsTo`, `ulongsBelow`).

The set and the clear half of the source are copies of each other. What they
share is written once, over the functions in which they differ.
-/

namespace Wdutf.Bitmap

/-- `ULONG`. -/
abbrev Ulong := UInt32

/-- `BITS_PER_ARRAY`. -/
def bitsPerArray : Ulong := 32

/-- `ALL_BITS_SET`; the source declares it as an `int`, every use converts it
to `ULONG`. -/
def allBitsSet : Ulong := 0xFFFFFFFF

/-- `RTL_BITMAP` with the words behind its `Buffer` pointer. The buffer may be
longer than the bitmap needs, never shorter. -/
structure RtlBitMap where
  sizeOfBitMap : Ulong
  buffer : List Ulong
  covers : (sizeOfBitMap.toNat + 31) / 32 ≤ buffer.length

/-- The number of words that hold the bits of the bitmap. -/
def RtlBitMap.wordCount (b : RtlBitMap) : ℕ := (b.sizeOfBitMap.toNat + 31) / 32

/-- How a routine can fail: a `DDKASSERT`, or an access to a word past the
last one of the bitmap. -/
inductive Fault where
  | assertion
  | outOfBounds
deriving DecidableEq, Repr

abbrev BitMapM := EStateM Fault RtlBitMap

/-- `RtlInitializeBitMap`. -/
def rtlInitializeBitMap (bitMapBuffer : List Ulong) (sizeOfBitMap : Ulong)
    (covers : (sizeOfBitMap.toNat + 31) / 32 ≤ bitMapBuffer.length) : RtlBitMap :=
  ⟨sizeOfBitMap, bitMapBuffer, covers⟩

/-! ## Primitive steps -/

/-- `DDKASSERT`. -/
def ddkAssert (condition : Bool) : BitMapM Unit :=
  if condition then pure () else throw .assertion

/-- Read `Buffer[index]`. -/
def getWord (index : Ulong) : BitMapM Ulong := fun b =>
  if index.toNat < b.wordCount then .ok (b.buffer.getD index.toNat 0) b
  else .error .outOfBounds b

/-- Pass `Buffer[index]` by reference to `f`. -/
def modifyWord (index : Ulong) (f : Ulong → Ulong) : BitMapM Unit := fun b =>
  if index.toNat < b.wordCount then
    .ok () ⟨b.sizeOfBitMap, b.buffer.modify index.toNat f, by simpa using b.covers⟩
  else .error .outOfBounds b

/-- The counter values of `for (ULONG i = first; i <= last; i++)`. -/
def ulongsTo (first last : Ulong) : List Ulong :=
  (List.range' first.toNat (last.toNat + 1 - first.toNat)).map UInt32.ofNat

/-- The counter values of `for (ULONG i = first; i < bound; i++)`. -/
def ulongsBelow (first bound : Ulong) : List Ulong :=
  (List.range' first.toNat (bound.toNat - first.toNat)).map UInt32.ofNat

/-- `1 << bitNum`. -/
def bitMask (bitNum : Ulong) : Ulong := (1 : Ulong) <<< bitNum

/-! ## Commonly used functions -/

/-- `CalculateArrayIndexFromBitNum`. -/
def calculateArrayIndexFromBitNum (bitNumber : Ulong) : Ulong := bitNumber / bitsPerArray

/-- `CalculateBitPositionInArrayElement`. -/
def calculateBitPositionInArrayElement (bitNumber arrayIndex : Ulong) : Ulong :=
  bitNumber - arrayIndex * bitsPerArray

/-- `CalculateLastBufferIndex`. -/
def calculateLastBufferIndex (lastBitNum : Ulong) : Ulong := lastBitNum / bitsPerArray

/-- `CalculateBitNumberInBitMap`. -/
def calculateBitNumberInBitMap (bufferIndex bitPosition : Ulong) : Ulong :=
  bufferIndex * bitsPerArray + bitPosition

/-- `ClearBitsInRange`, on the word passed by reference. -/
def clearBitsInRange (startingIndex endIndex bufferElement : Ulong) : Ulong :=
  (ulongsTo startingIndex endIndex).foldl (fun w bitNum => w &&& ~~~bitMask bitNum) bufferElement

/-- `SetBitsInRange`, on the word passed by reference. -/
def setBitsInRange (startingIndex endIndex bufferElement : Ulong) : Ulong :=
  (ulongsTo startingIndex endIndex).foldl (fun w bitNum => w ||| bitMask bitNum) bufferElement

/-- The loop of `ClearArrayElements` and `SetArrayElements`. -/
def fillArrayElements (value : Ulong) (startingIndex endIndex : Ulong) : BitMapM Unit :=
  (ulongsTo startingIndex endIndex).forM fun bufferIndex => modifyWord bufferIndex fun _ => value

/-- `ClearArrayElements`. -/
def clearArrayElements : Ulong → Ulong → BitMapM Unit := fillArrayElements 0

/-- `SetArrayElements`. -/
def setArrayElements : Ulong → Ulong → BitMapM Unit := fillArrayElements allBitsSet

/-! ## Single bits -/

/-- `RtlClearBit`. -/
def rtlClearBit (bitNumber : Ulong) : BitMapM Unit := do
  ddkAssert (bitNumber < (← get).sizeOfBitMap)
  modifyWord (calculateArrayIndexFromBitNum bitNumber) (clearBitsInRange bitNumber bitNumber)

/-- `RtlSetBit`. -/
def rtlSetBit (bitNumber : Ulong) : BitMapM Unit := do
  ddkAssert (bitNumber < (← get).sizeOfBitMap)
  modifyWord (calculateArrayIndexFromBitNum bitNumber) (setBitsInRange bitNumber bitNumber)

/-- `RtlTestBit`. -/
def rtlTestBit (bitNumber : Ulong) : BitMapM Bool := do
  ddkAssert (bitNumber < (← get).sizeOfBitMap)
  let w ← getWord (calculateArrayIndexFromBitNum bitNumber)
  pure ((w &&& bitMask bitNumber) != 0)

/-! ## Writing ranges of bits -/

/-- The body of `RtlClearAllBits` and `RtlSetAllBits`. -/
def writeAllBits (arrayElements : Ulong → Ulong → BitMapM Unit)
    (bitsInRange : Ulong → Ulong → Ulong → Ulong) : BitMapM Unit := do
  let b ← get
  let lastBufferIndex := calculateLastBufferIndex (b.sizeOfBitMap - 1)
  let lastBitNumber := calculateBitPositionInArrayElement (b.sizeOfBitMap - 1) lastBufferIndex
  if lastBufferIndex > 0 then
    arrayElements 0 (lastBufferIndex - 1)
  -- the last element may not be on a word boundary
  modifyWord lastBufferIndex (bitsInRange 0 lastBitNumber)

/-- `RtlClearAllBits`. -/
def rtlClearAllBits : BitMapM Unit := writeAllBits clearArrayElements clearBitsInRange

/-- `RtlSetAllBits`. -/
def rtlSetAllBits : BitMapM Unit := writeAllBits setArrayElements setBitsInRange

/-- The body of `RtlClearBits` and `RtlSetBits`. The assertion compares the
wrapped 32-bit sum. -/
def writeBits (arrayElements : Ulong → Ulong → BitMapM Unit)
    (bitsInRange : Ulong → Ulong → Ulong → Ulong)
    (startingIndex number : Ulong) : BitMapM Unit := do
  ddkAssert (startingIndex + number ≤ (← get).sizeOfBitMap)
  if number ≠ 0 then
    let startBufferIndex := calculateArrayIndexFromBitNum startingIndex
    let startingBitPosition := calculateBitPositionInArrayElement startingIndex startBufferIndex
    let lastBit := startingIndex + number - 1
    let lastBufferIndex := calculateLastBufferIndex lastBit
    let lastBitPosition := calculateBitPositionInArrayElement lastBit lastBufferIndex
    if startBufferIndex = lastBufferIndex then
      modifyWord lastBufferIndex (bitsInRange startingBitPosition lastBitPosition)
    else
      modifyWord startBufferIndex (bitsInRange startingBitPosition (bitsPerArray - 1))
      arrayElements (startBufferIndex + 1) (lastBufferIndex - 1)
      modifyWord lastBufferIndex (bitsInRange 0 lastBitPosition)

/-- `RtlClearBits`. -/
def rtlClearBits : Ulong → Ulong → BitMapM Unit := writeBits clearArrayElements clearBitsInRange

/-- `RtlSetBits`. -/
def rtlSetBits : Ulong → Ulong → BitMapM Unit := writeBits setArrayElements setBitsInRange

/-! ## Reading ranges of bits -/

/-- A loop of `RtlAreBitsClear` or `RtlAreBitsSet` either returns from the
function or hands `bits_checked` on to the code after it. -/
inductive Flow where
  | ret (value : Bool)
  | next (bitsChecked : Ulong)

/-- A loop over bits of one element. Once `Length` bits have been checked the
loop over the start element returns `TRUE` (`stopAtLength`), the others idle
to their end. `mismatch` is the test on `bit_set`. -/
def checkElementBits (mismatch : Ulong → Bool) (stopAtLength : Bool) (length bufferIndex : Ulong) :
    List Ulong → Ulong → BitMapM Flow
  | [], bitsChecked => pure (.next bitsChecked)
  | bitNum :: bitNums, bitsChecked => do
    if length > bitsChecked then
      let w ← getWord bufferIndex
      if mismatch (w &&& bitMask bitNum) then pure (.ret false)
      else checkElementBits mismatch stopAtLength length bufferIndex bitNums (bitsChecked + 1)
    else if stopAtLength then pure (.ret true)
    else checkElementBits mismatch stopAtLength length bufferIndex bitNums bitsChecked

/-- The loop over the elements between the start and the last one, which are
compared with `element` as a whole. -/
def checkElements (element length : Ulong) : List Ulong → Ulong → BitMapM Flow
  | [], bitsChecked => pure (.next bitsChecked)
  | bufferNum :: bufferNums, bitsChecked => do
    if length > bitsChecked then
      let w ← getWord bufferNum
      if element ≠ w then pure (.ret false)
      else checkElements element length bufferNums (bitsChecked + bitsPerArray)
    else pure (.ret true)

/-- The body of `RtlAreBitsClear` and `RtlAreBitsSet`. The range check compares
the wrapped 32-bit sum. -/
def areBits (mismatch : Ulong → Bool) (element startingIndex length : Ulong) : BitMapM Bool := do
  if length = 0 ∨ (← get).sizeOfBitMap < startingIndex + length then
    pure false
  else
    let startBufferIndex := calculateArrayIndexFromBitNum startingIndex
    let startBitNumber := calculateBitPositionInArrayElement startingIndex startBufferIndex
    let lastBufferIndex := calculateArrayIndexFromBitNum (startingIndex + length - 1)
    let lastBitNumber :=
      calculateBitPositionInArrayElement (startingIndex + length - 1) lastBufferIndex
    if startBufferIndex = lastBufferIndex then
      match ← checkElementBits mismatch false length lastBufferIndex
          (ulongsTo startBitNumber lastBitNumber) 0 with
      | .ret value => pure value
      | .next _ => pure true
    else
      match ← checkElementBits mismatch true length startBufferIndex
          (ulongsBelow startBitNumber bitsPerArray) 0 with
      | .ret value => pure value
      | .next bitsChecked =>
        match ← checkElements element length
            (ulongsBelow (startBufferIndex + 1) lastBufferIndex) bitsChecked with
        | .ret value => pure value
        | .next bitsChecked =>
          match ← checkElementBits mismatch false length lastBufferIndex
              (ulongsTo 0 lastBitNumber) bitsChecked with
          | .ret value => pure value
          | .next _ => pure true

/-- `RtlAreBitsClear`: a non-zero `bit_set` ends the search. -/
def rtlAreBitsClear : Ulong → Ulong → BitMapM Bool := areBits (fun bitSet => bitSet != 0) 0

/-- `RtlAreBitsSet`: a zero `bit_set` ends the search. -/
def rtlAreBitsSet : Ulong → Ulong → BitMapM Bool := areBits (fun bitSet => bitSet == 0) allBitsSet

/-! ## Searching for runs of bits -/

/-- The variables a search passes by reference from element to element. -/
structure Run where
  runStarted : Bool
  startBit : Ulong
  runCount : Ulong
deriving DecidableEq, Repr

/-- A routine that continues the search in one buffer element: the element,
its index, `numToFind`, and the first and the last bit position to look at. -/
abbrev Scanner := Ulong → Ulong → Ulong → Ulong → Ulong → Run → Bool × Run

/-- The bit loop of `NumClearBitsFound` and `NumSetBitsFound`. `hit` is the
test on `bit_set`. -/
def scanBits (hit : Ulong → Bool) (bufferElement bufferIndex numToFind : Ulong) :
    List Ulong → Run → Bool × Run
  | [], r => (false, r)
  | bitNum :: bitNums, r =>
    if hit (bufferElement &&& bitMask bitNum) then
      let startBit :=
        if r.runStarted then r.startBit else calculateBitNumberInBitMap bufferIndex bitNum
      let r : Run := ⟨true, startBit, r.runCount + 1⟩
      if r.runCount ≥ numToFind then (true, r)
      else scanBits hit bufferElement bufferIndex numToFind bitNums r
    else scanBits hit bufferElement bufferIndex numToFind bitNums ⟨false, r.startBit, 0⟩

/-- `NumClearBitsFound`. -/
def numClearBitsFound : Scanner :=
  fun bufferElement bufferIndex numToFind startBitPosition endBitPosition r =>
    if bufferElement = 0 ∧ r.runStarted = false then
      let r : Run := ⟨true, calculateBitNumberInBitMap bufferIndex startBitPosition,
        r.runCount + (endBitPosition - startBitPosition + 1)⟩
      (decide (r.runCount ≥ numToFind), r)
    else if bufferElement = 0 ∧ r.runStarted = true then
      let r : Run := { r with runCount := r.runCount + bitsPerArray }
      (decide (r.runCount ≥ numToFind), r)
    else
      scanBits (fun bitSet => bitSet == 0) bufferElement bufferIndex numToFind
        (ulongsTo startBitPosition endBitPosition) r

/-- `NumSetBitsFound`. -/
def numSetBitsFound : Scanner :=
  fun bufferElement bufferIndex numToFind startBitPosition endBitPosition r =>
    if bufferElement = allBitsSet ∧ r.runStarted = false then
      let r : Run := ⟨true, calculateBitNumberInBitMap bufferIndex startBitPosition,
        r.runCount + (endBitPosition - startBitPosition + 1)⟩
      (decide (r.runCount ≥ numToFind), r)
    else if bufferElement = allBitsSet ∧ r.runStarted = true then
      let r : Run := { r with runCount := r.runCount + bitsPerArray }
      (decide (r.runCount ≥ numToFind), r)
    else
      scanBits (fun bitSet => bitSet != 0) bufferElement bufferIndex numToFind
        (ulongsTo startBitPosition endBitPosition) r

/-- The loop over the elements between the start and the last one. -/
def scanElements (bitsFound : Scanner) (numberToFind : Ulong) :
    List Ulong → Run → BitMapM (Bool × Run)
  | [], r => pure (false, r)
  | bufferIndex :: bufferIndices, r => do
    let w ← getWord bufferIndex
    match bitsFound w bufferIndex numberToFind 0 (bitsPerArray - 1) r with
    | (true, r) => pure (true, r)
    | (false, r) => scanElements bitsFound numberToFind bufferIndices r

/-- One turn of the `while` loop, from the given start to the end of the
bitmap. -/
def searchPass (bitsFound : Scanner) (numberToFind startBufferIndex startBitPosition
    lastBufferIndex lastBitPosition : Ulong) (r : Run) : BitMapM (Bool × Run) := do
  let w ← getWord startBufferIndex
  if startBufferIndex = lastBufferIndex then
    pure (bitsFound w startBufferIndex numberToFind startBitPosition lastBitPosition r)
  else
    match bitsFound w startBufferIndex numberToFind startBitPosition (bitsPerArray - 1) r with
    | (true, r) => pure (true, r)
    | (false, r) =>
      match ← scanElements bitsFound numberToFind
          (ulongsBelow (startBufferIndex + 1) lastBufferIndex) r with
      | (true, r) => pure (true, r)
      | (false, r) =>
        let w ← getWord lastBufferIndex
        pure (bitsFound w lastBufferIndex numberToFind 0 lastBitPosition r)

/-- The `while` loop; the first argument is `loop_count`. Every turn after the
first starts again from bit 0 with no run started. -/
def searchLoop (bitsFound : Scanner) (numberToFind lastBufferIndex lastBitPosition : Ulong) :
    ℕ → Ulong → Ulong → Run → BitMapM Ulong
  | 0, _, _, _ => pure allBitsSet
  | loopCount + 1, startBufferIndex, startBitPosition, r => do
    match ← searchPass bitsFound numberToFind startBufferIndex startBitPosition
        lastBufferIndex lastBitPosition r with
    | (true, r) => pure r.startBit
    | (false, r) =>
      searchLoop bitsFound numberToFind lastBufferIndex lastBitPosition loopCount 0 0
        ⟨false, r.startBit, 0⟩

/-- The body of `RtlFindClearBits` and `RtlFindSetBits`. -/
def findBits (bitsFound : Scanner) (numberToFind hintIndex : Ulong) : BitMapM Ulong := do
  let b ← get
  if numberToFind < b.sizeOfBitMap then
    let startBufferIndex := calculateArrayIndexFromBitNum hintIndex
    let startBitPosition := calculateBitPositionInArrayElement hintIndex startBufferIndex
    let lastBufferIndex := calculateLastBufferIndex (b.sizeOfBitMap - 1)
    let lastBitPosition := calculateBitPositionInArrayElement (b.sizeOfBitMap - 1) lastBufferIndex
    let numBitsToCheck := b.sizeOfBitMap - hintIndex
    let r : Run := ⟨false, allBitsSet, 0⟩
    -- not enough bits behind the hint, or no such bit: search from the start, once
    if numberToFind > numBitsToCheck ∨ b.sizeOfBitMap ≤ hintIndex then
      searchLoop bitsFound numberToFind lastBufferIndex lastBitPosition 1 0 0 r
    else
      searchLoop bitsFound numberToFind lastBufferIndex lastBitPosition 2
        startBufferIndex startBitPosition r
  else pure allBitsSet

/-- `RtlFindClearBits`. -/
def rtlFindClearBits : Ulong → Ulong → BitMapM Ulong := findBits numClearBitsFound

/-- `RtlFindSetBits`. -/
def rtlFindSetBits : Ulong → Ulong → BitMapM Ulong := findBits numSetBitsFound

/-- `RtlFindClearBitsAndSet`. -/
def rtlFindClearBitsAndSet (numberToFind hintIndex : Ulong) : BitMapM Ulong := do
  let startBitIndex ← rtlFindClearBits numberToFind hintIndex
  if startBitIndex ≠ allBitsSet then rtlSetBits startBitIndex numberToFind
  pure startBitIndex

/-- `RtlFindSetBitsAndClear`. -/
def rtlFindSetBitsAndClear (numberToFind hintIndex : Ulong) : BitMapM Ulong := do
  let startBitIndex ← rtlFindSetBits numberToFind hintIndex
  if startBitIndex ≠ allBitsSet then rtlClearBits startBitIndex numberToFind
  pure startBitIndex

/-! ## Walking through the clear runs -/

/-- The variables `CountClearRun` passes by reference from element to element. -/
structure ClearRun where
  runStarted : Bool
  runEnded : Bool
  startBit : Ulong
  runCount : Ulong
deriving DecidableEq, Repr

/-- The bit loop of `CountClearRun`; a set bit behind the run breaks it off. -/
def countClearBits (bufferElement bufferIndex : Ulong) : List Ulong → ClearRun → ClearRun
  | [], r => r
  | bitPosition :: bitPositions, r =>
    if (bufferElement &&& bitMask bitPosition) == 0 then
      let startBit :=
        if r.runStarted then r.startBit else calculateBitNumberInBitMap bufferIndex bitPosition
      countClearBits bufferElement bufferIndex bitPositions
        ⟨true, r.runEnded, startBit, r.runCount + 1⟩
    else if r.runStarted then { r with runEnded := true }
    else countClearBits bufferElement bufferIndex bitPositions r

/-- `CountClearRun`. -/
def countClearRun (bufferElement bufferIndex startBitPosition lastBitPosition : Ulong)
    (r : ClearRun) : ClearRun :=
  if bufferElement = 0 ∧ r.runStarted = false then
    ⟨true, false, calculateBitNumberInBitMap bufferIndex startBitPosition,
      lastBitPosition - startBitPosition + 1⟩
  else if bufferElement = 0 ∧ r.runStarted = true then
    { r with runCount := r.runCount + bitsPerArray }
  else
    countClearBits bufferElement bufferIndex (ulongsTo startBitPosition lastBitPosition) r

/-- The loop over the elements between the start and the last one; it is left when
the run has ended. -/
def countElements : List Ulong → ClearRun → BitMapM ClearRun
  | [], r => pure r
  | bufferIndex :: bufferIndices, r => do
    let w ← getWord bufferIndex
    let r := countClearRun w bufferIndex 0 (bitsPerArray - 1) r
    if r.runEnded then pure r else countElements bufferIndices r

/-- `RtlFindNextForwardRunClear`: the run count, and what is stored in
`*StartingRunIndex`. -/
def rtlFindNextForwardRunClear (fromIndex : Ulong) : BitMapM (Ulong × Ulong) := do
  let b ← get
  ddkAssert (fromIndex < b.sizeOfBitMap)
  let startBufferIndex := calculateArrayIndexFromBitNum fromIndex
  let startBitPosition := calculateBitPositionInArrayElement fromIndex startBufferIndex
  let lastBufferIndex := calculateLastBufferIndex (b.sizeOfBitMap - 1)
  let lastBitPosition := calculateBitPositionInArrayElement (b.sizeOfBitMap - 1) lastBufferIndex
  let r : ClearRun := ⟨false, false, 0, 0⟩
  let w ← getWord startBufferIndex
  if startBufferIndex = lastBufferIndex then
    let r := countClearRun w startBufferIndex startBitPosition lastBitPosition r
    pure (r.runCount, r.startBit)
  else
    let r := countClearRun w startBufferIndex startBitPosition (bitsPerArray - 1) r
    if r.runEnded then pure (r.runCount, r.startBit)
    else
      let r ← countElements (ulongsBelow (startBufferIndex + 1) lastBufferIndex) r
      if r.runEnded then pure (r.runCount, r.startBit)
      else
        let w ← getWord lastBufferIndex
        let r := countClearRun w lastBufferIndex 0 lastBitPosition r
        pure (r.runCount, r.startBit)

/-- `RtlFindFirstRunClear`. -/
def rtlFindFirstRunClear : BitMapM (Ulong × Ulong) := rtlFindNextForwardRunClear 0

/-! ## Counting set bits -/

/-- A bit loop of `RtlNumberOfSetBits`. -/
def addSetBits (bufferElement : Ulong) (bitNums : List Ulong) (numberOfSetBits : Ulong) : Ulong :=
  bitNums.foldl (fun n bitNum => if (bufferElement &&& bitMask bitNum) != 0 then n + 1 else n)
    numberOfSetBits

/-- The loop of `RtlNumberOfSetBits` over the elements before the last one. -/
def addElements : List Ulong → Ulong → BitMapM Ulong
  | [], numberOfSetBits => pure numberOfSetBits
  | bufferIndex :: bufferIndices, numberOfSetBits => do
    let w ← getWord bufferIndex
    if allBitsSet = w then addElements bufferIndices (numberOfSetBits + bitsPerArray)
    else addElements bufferIndices (addSetBits w (ulongsBelow 0 bitsPerArray) numberOfSetBits)

/-- `RtlNumberOfSetBits`. -/
def rtlNumberOfSetBits : BitMapM Ulong := do
  let b ← get
  let lastBufferIndex := calculateLastBufferIndex (b.sizeOfBitMap - 1)
  let lastBitPosition := calculateBitPositionInArrayElement (b.sizeOfBitMap - 1) lastBufferIndex
  let numberOfSetBits ← addElements (ulongsBelow 0 lastBufferIndex) 0
  let w ← getWord lastBufferIndex
  pure (addSetBits w (ulongsTo 0 lastBitPosition) numberOfSetBits)

end Wdutf.Bitmap
