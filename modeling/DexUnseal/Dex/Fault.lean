import DexUnseal.Dex.StringData
/-!
What can be wrong with a dex file or with a container that is to become one, and the text for it.
-/

namespace DexUnseal.Dex

inductive Primitive where
  | u1
  | u2
  | u4
  | uleb128
  | sleb128
  deriving DecidableEq

def Primitive.name : Primitive → String
  | u1 => "u1"
  | u2 => "u2"
  | u4 => "u4"
  | uleb128 => "uleb128"
  | sleb128 => "sleb128"

inductive Cause where
  | endOfStream (primitive : Primitive) (position : Nat)
  | bufferTooShort (length position : Nat)
  | positionOverflow
  | headerTooShort (length : Nat)
  | invalidMagic (magic : Bytes)
  | byteSwapped
  | invalidEndianTag (tag : UInt32)
  | unterminatedString (position : Nat)
  | invalidTypeDescriptor (stringIdx : UInt32)
  | valueTooWide (width most position : Nat)
  | unknownValueType (code position : Nat)
  | nestingTooDeep (position : Nat)
  | instructionsOverrun (size : UInt32) (codeStart : Nat)
  | handlerOutside (offset : UInt16) (codeStart : Nat)
  | invalidClassIdx (classIdx : UInt32)
  | memberIndexOverflow (last difference : UInt32)
  | undefinedType (classIdx : UInt32) (classDef : Nat)
  | undefinedDescriptor (stringIdx typeIdx : UInt32)
  | notAClass (classDef : Nat) (descriptor : StringData)
  | tooManyTries (count : Nat)
  | membersOutOfOrder (index previous : UInt32)
  | idSectionsMisplaced (actual expected : Nat)
  deriving DecidableEq

inductive Context where
  | annotationItem (offset : UInt32)
  | string (index : Nat)
  | debugInfo (offset : Nat)
  | catchHandler (number count offset codeStart : Nat)
  | method (index : UInt32)
  | classDef (index : Nat)
  | classData (descriptor : String)
  deriving DecidableEq

/-- A cause and the items around it, innermost first. -/
structure Fault where
  cause : Cause
  contexts : List Context
  deriving DecidableEq

/-- The greatest nesting of arrays and annotations that the depth count admits. -/
def nestingLimit : Nat := 64

open Text in
def Cause.message : Cause → String
  | endOfStream primitive position =>
    s!"Unexpected end of stream reading {primitive.name} at index {position}"
  | bufferTooShort length position => s!"buffer too short for {length} byte read at index {position}"
  | positionOverflow => "position exceeds 64 bits"
  | headerTooShort length => s!"Not enough bytes for header: {length}"
  | invalidMagic magic =>
    "Invalid magic value [" ++ String.intercalate ", " (magic.map fun b => hexPadded 2 b.toNat) ++ "]"
  | byteSwapped => "Byte-swapped dex files are not supported"
  | invalidEndianTag tag => "Invalid endian tag 0x" ++ hexPadded 8 tag.toNat
  | unterminatedString position => s!"Unterminated string_data_item at index {position}"
  | invalidTypeDescriptor stringIdx => s!"Invalid type descriptor index {stringIdx}"
  | valueTooWide width most position =>
    s!"encoded value width {width} exceeds {most} at index {position}"
  | unknownValueType code position =>
    "Unknown EncodedValue type 0x" ++ hexPadded 2 code ++ s!" at index {position}"
  | nestingTooDeep position => s!"encoded value nesting exceeds {nestingLimit} at index {position}"
  | instructionsOverrun size codeStart =>
    s!"insns_size {size} overruns the file (code_item_start=0x{hex codeStart})"
  | handlerOutside offset codeStart =>
    s!"try item handler_off {offset} outside the handler list (code_item_start=0x{hex codeStart})"
  | invalidClassIdx classIdx => s!"Invalid class_idx {classIdx}"
  | memberIndexOverflow last difference =>
    s!"member index overflows (last {last}, diff {difference})"
  | undefinedType classIdx classDef => s!"Invalid class_idx {classIdx} in class_def #{classDef}"
  | undefinedDescriptor stringIdx typeIdx =>
    s!"Invalid descriptor_idx {stringIdx} for type #{typeIdx}"
  | notAClass classDef descriptor =>
    s!"class_def #{classDef} does not name a class: {descriptor.describe}"
  | tooManyTries count => s!"too many try items: {count}"
  | membersOutOfOrder index previous => s!"member indices out of order ({index} after {previous})"
  | idSectionsMisplaced actual expected =>
    s!"id sections end at 0x{hex actual}, expected 0x{hex expected}"

open Text in
def Context.message : Context → String
  | annotationItem offset => s!"annotation_item at 0x{hex offset.toNat}"
  | string index => s!"string #{index}"
  | debugInfo offset => s!"debug_info_item at 0x{hex offset}"
  | catchHandler number count offset codeStart =>
    s!"encoded_catch_handler #{number}/{count} at 0x{hex offset} (code_item_start=0x{hex codeStart})"
  | method index => s!"method #{index}"
  | classDef index => s!"class_def #{index}"
  | classData descriptor => "class data of " ++ descriptor

namespace Fault

def ofCause (cause : Cause) : Fault := ⟨cause, []⟩

def within (context : Context) (fault : Fault) : Fault :=
  ⟨fault.cause, fault.contexts ++ [context]⟩

/-- The first context follows the cause after "for", each further one after "of". -/
def message (fault : Fault) : String :=
  match fault.contexts with
  | [] => fault.cause.message
  | first :: others =>
    fault.cause.message ++ " for " ++ first.message
      ++ String.join (others.map fun context => " of " ++ context.message)

end Fault

def inContext (context : Context) (result : Except Fault α) : Except Fault α :=
  result.mapError (Fault.within context)

end DexUnseal.Dex
