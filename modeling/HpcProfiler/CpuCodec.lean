import HpcProfiler.Events
import HpcProfiler.StructFormat
import HpcProfiler.Utf8Replace

/-!
The wire format of CPU events: the functions _serialize and deserialize of the
bridge. The fixed header is followed by the object type, then by the extension
block, whose strings and shape each carry their own length.
-/

namespace HpcProfiler.CpuCodec

open Events StructFormat Utf8Replace

def eventTypeMap : List (String × ℤ) :=
  [("ALLOC", 0), ("DEALLOC", 1), ("TRANSFER", 2), ("PAGE_FAULT", 3), ("KERNEL", 4)]

def fixedFmt : List Code := [.Q, .Q, .I, .Q, .B, .B, .Q, .Q, .I, .b, .H]

def fixedSize : ℕ := size fixedFmt

def cpuExtFmt : List Code := [.Q, .Q, .B, .Q, .Q, .Q, .Q, .B]

def cpuExtSize : ℕ := size cpuExtFmt

/-- The UTF-8 form of a string, cut to what a two-byte length can count. -/
def encodeCapped (s : String) : List UInt8 := (encode s).take 65535

def byteOfBool (flag : Bool) : ℤ := if flag then 1 else 0

def packLen (n : ℕ) : Except PyError (List UInt8) := pack [.H] [(n : ℤ)]

def packShape (dims : List ℤ) : Except PyError (List UInt8) :=
  if dims.length = 0 then .ok [] else pack (List.replicate dims.length .Q) dims

def shapeDims (event : CpuEvent) : List ℤ := (event.arrayShape.getD []).take 255

def isDeallocOf (event : CpuEvent) : Except PyError Bool :=
  match event.isDealloc with
  | some flag => .ok flag
  | none => .error (.keyError "is_dealloc")

def serialize (event : CpuEvent) : Except PyError (List UInt8) := do
  let eventType := (eventTypeMap.lookup event.base.eventType).getD 0
  let isDealloc ← isDeallocOf event
  let objectTypeEnc := encodeCapped event.objectType
  let fixed ← pack fixedFmt [event.base.eventId, event.base.timestampNs, event.base.processId,
    event.base.threadId, eventType, byteOfBool isDealloc, event.allocAddress,
    event.allocSizeBytes, event.refCount, event.gcGeneration, (objectTypeEnc.length : ℤ)]
  let moduleNameEnc := encodeCapped (event.moduleName.getD "")
  let shapeBytes ← packShape (shapeDims event)
  let dtypeEnc := encodeCapped (event.arrayDtype.getD "")
  let nameLen ← packLen moduleNameEnc.length
  let core ← pack cpuExtFmt [event.peakRssKb.getD 0, event.lifetimeNs.getD 0,
    byteOfBool (event.isNumpyBuffer.getD false), event.bufferNbytes.getD 0,
    event.parentAddress.getD 0, event.pinnedAddress.getD 0, event.tracemallocSize.getD 0,
    ((shapeDims event).length : ℤ)]
  let dtypeLen ← packLen dtypeEnc.length
  return fixed ++ (objectTypeEnc ++ (nameLen ++ (moduleNameEnc ++ (core ++ (shapeBytes ++
    (dtypeLen ++ dtypeEnc))))))

def text (payload : List UInt8) (off len : ℕ) : String :=
  decodeReplace ((payload.drop off).take len)

def unpackLen (payload : List UInt8) (off : ℕ) : Except PyError ℕ :=
  (unpackFrom [.H] payload off).map (fun vs => (vs.headD 0).toNat)

/-- The local variables of deserialize that the extension block fills in. -/
structure CpuExt where
  moduleName : String := ""
  peakRssKb : ℤ := 0
  lifetimeNs : ℤ := 0
  isNumpy : Bool := false
  bufferNbytes : ℤ := 0
  parentAddress : ℤ := 0
  pinnedAddress : ℤ := 0
  tracemallocSize : ℤ := 0
  arrayShape : List ℤ := []
  arrayDtype : String := ""

def readDtype (payload : List UInt8) (off : ℕ) (ext : CpuExt) : Except PyError CpuExt :=
  if off + 2 ≤ payload.length then do
    let dtypeLen ← unpackLen payload off
    if off + 2 + dtypeLen ≤ payload.length then
      return { ext with arrayDtype := text payload (off + 2) dtypeLen }
    else
      return ext
  else
    return ext

def readShape (payload : List UInt8) (off arrayNdim : ℕ) (ext : CpuExt) :
    Except PyError CpuExt :=
  if 0 < arrayNdim ∧ off + arrayNdim * 8 ≤ payload.length then do
    let shapeVals ← unpackFrom (List.replicate arrayNdim .Q) payload off
    readDtype payload (off + arrayNdim * 8) { ext with arrayShape := shapeVals }
  else
    readDtype payload off ext

def readCore (payload : List UInt8) (off : ℕ) (ext : CpuExt) : Except PyError CpuExt :=
  if off + cpuExtSize ≤ payload.length then
    match unpackFrom cpuExtFmt payload off with
    | .ok [peakRssKb, lifetimeNs, isNumpyByte, bufferNbytes, parentAddress, pinnedAddress,
        tracemallocSize, arrayNdim] =>
      readShape payload (off + cpuExtSize) arrayNdim.toNat
        { ext with
          peakRssKb, lifetimeNs, isNumpy := isNumpyByte != 0, bufferNbytes, parentAddress,
          pinnedAddress, tracemallocSize }
    | .ok _ => .error .structError
    | .error e => .error e
  else
    return ext

def readExt (payload : List UInt8) (off : ℕ) : Except PyError CpuExt :=
  if off + 2 ≤ payload.length then do
    let moduleNameLen ← unpackLen payload off
    if off + 2 + moduleNameLen ≤ payload.length then
      readCore payload (off + 2 + moduleNameLen)
        { moduleName := text payload (off + 2) moduleNameLen }
    else
      readCore payload (off + 2) {}
  else
    return {}

def typeMapRev : List (ℤ × String) := eventTypeMap.map Prod.swap

def deserialize (payload : List UInt8) : Except PyError CpuEvent :=
  if payload.length < fixedSize then
    .error (.valueError s!"Payload too short: {payload.length} < {fixedSize}")
  else
    match unpack fixedFmt (payload.take fixedSize) with
    | .ok [eventId, timestampNs, processId, threadId, eventTypeInt, isDealloc, allocAddress,
        allocSize, refCount, gcGeneration, objectTypeLen] => do
      let ext ← readExt payload (fixedSize + objectTypeLen.toNat)
      return {
        base := {
          eventId, timestampNs, processId, threadId,
          eventType := (typeMapRev.lookup eventTypeInt).getD "ALLOC" }
        allocAddress
        allocSizeBytes := allocSize
        objectType := text payload fixedSize objectTypeLen.toNat
        refCount, gcGeneration
        isDealloc := some (isDealloc != 0)
        callstack := []
        moduleName := some ext.moduleName
        peakRssKb := some ext.peakRssKb
        lifetimeNs := some ext.lifetimeNs
        isNumpyBuffer := some ext.isNumpy
        bufferNbytes := some ext.bufferNbytes
        parentAddress := some ext.parentAddress
        pinnedAddress := some ext.pinnedAddress
        tracemallocSize := some ext.tracemallocSize
        arrayShape := some ext.arrayShape
        arrayDtype := some ext.arrayDtype }
    | .ok _ => .error .structError
    | .error e => .error e

end HpcProfiler.CpuCodec
