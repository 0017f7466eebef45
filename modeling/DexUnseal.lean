import DexUnseal.ClassSource
import DexUnseal.Dex.Agreement
import DexUnseal.Holder.Session
import DexUnseal.Proofs.Archive.Limits
import DexUnseal.Proofs.Archive.Names
import DexUnseal.Proofs.Archive.Selection
import DexUnseal.Proofs.BatchTable.Growth
import DexUnseal.Proofs.Cache.Session
import DexUnseal.Proofs.ClassFile
import DexUnseal.Proofs.ClassSource.Crowding
import DexUnseal.Proofs.ClassSource.EntryOrder
import DexUnseal.Proofs.Dex.Machine.Container
import DexUnseal.Proofs.Dex.Overflow
import DexUnseal.Proofs.Dex.Refusal
import DexUnseal.Proofs.Dex.Relocation
import DexUnseal.Proofs.Dex.Value.Nesting
import DexUnseal.Proofs.Dex.Value.Shortest
import DexUnseal.Proofs.Holder.Session
import DexUnseal.Proofs.Leb128.Format
import DexUnseal.Proofs.Unsealing.Frame
