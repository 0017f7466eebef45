/-!
Which classes may be opened.
-/

namespace DexUnseal

structure ClassFilter where
  disallowed : List String
  deriving DecidableEq

namespace ClassFilter

def defaultDisallowed : List String := [
  "android.",
  "androidx.test.",
  "com.android.",
  "com.github.tmurakami.classinjector.",
  "com.github.tmurakami.dexmockito.",
  "com.github.tmurakami.dexopener.",
  "junit.",
  "kotlin.",
  "kotlinx.",
  "net.bytebuddy.",
  "org.hamcrest.",
  "org.junit.",
  "org.mockito.",
  "org.objenesis."]

def occursIn (part : List Char) : List Char → Bool
  | [] => part.isEmpty
  | c :: rest => part.isPrefixOf (c :: rest) || occursIn part rest

/-- Resource classes and build settings, which are generated. -/
def isGenerated (name : String) : Bool :=
  ".R".toList.isSuffixOf name.toList || occursIn ".R$".toList name.toList
    || ".BuildConfig".toList.isSuffixOf name.toList

def accepts (f : ClassFilter) (name : String) : Bool :=
  !(f.disallowed.any fun start => start.toList.isPrefixOf name.toList) && !isGenerated name

end ClassFilter

end DexUnseal
