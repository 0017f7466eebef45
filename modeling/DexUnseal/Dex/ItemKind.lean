/-!
The kinds of items in a dex file, with the codes that the map list gives them.
-/

namespace DexUnseal.Dex

inductive ItemKind where
  | header
  | stringId
  | typeId
  | protoId
  | fieldId
  | methodId
  | classDef
  | callSiteId
  | methodHandle
  | mapList
  | typeList
  | annotationSetList
  | annotationSet
  | classData
  | code
  | stringData
  | debugInfo
  | annotationItem
  | encodedArray
  | annotationDirectory
  deriving DecidableEq

namespace ItemKind

def typeCode : ItemKind → UInt16
  | header => 0x0000
  | stringId => 0x0001
  | typeId => 0x0002
  | protoId => 0x0003
  | fieldId => 0x0004
  | methodId => 0x0005
  | classDef => 0x0006
  | callSiteId => 0x0007
  | methodHandle => 0x0008
  | mapList => 0x1000
  | typeList => 0x1001
  | annotationSetList => 0x1002
  | annotationSet => 0x1003
  | classData => 0x2000
  | code => 0x2001
  | stringData => 0x2002
  | debugInfo => 0x2003
  | annotationItem => 0x2004
  | encodedArray => 0x2005
  | annotationDirectory => 0x2006

/-- Items made of words start at a word, items of bytes anywhere. -/
def alignment : ItemKind → UInt32
  | stringData | debugInfo | annotationItem | encodedArray | classData => 1
  | _ => 4

end ItemKind

end DexUnseal.Dex
