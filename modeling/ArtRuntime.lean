import ArtRuntime.Core.Bytes
import ArtRuntime.Core.Probe
import ArtRuntime.Core.Word
import ArtRuntime.Core.BitScan
import ArtRuntime.Core.Layout
import ArtRuntime.Dex.Instruction
import ArtRuntime.Dex.FileVerifier
import ArtRuntime.Compiler.NativeGcMap
import ArtRuntime.Verifier.DexGcMap
import ArtRuntime.Verifier.FillArrayData
import ArtRuntime.Verifier.RegType
import ArtRuntime.Verifier.RegTypeCache
import ArtRuntime.Verifier.Merge
import ArtRuntime.ClassLinker.LinkFields
import ArtRuntime.Gc.MarkSweep
import ArtRuntime.Gc.Marking
import ArtRuntime.Zip.Archive
import ArtRuntime.Gc.CardTable
import ArtRuntime.Base.Leb128
import ArtRuntime.Compiler.MappingTable
import ArtRuntime.Gc.LargeObjectSpace
import ArtRuntime.Core.Reach
import ArtRuntime.Jni.IndirectReferenceTable
import ArtRuntime.Jni.RefHistory
import ArtRuntime.Core.ListSet
import ArtRuntime.Mirror.IfTable
import ArtRuntime.Mirror.Class
import ArtRuntime.Core.ReentrantLock
import ArtRuntime.Monitor.LockWord
import ArtRuntime.Monitor.Wait
import ArtRuntime.Core.Count
import ArtRuntime.Base.Mutex
import ArtRuntime.Base.ReaderWriterMutex
import ArtRuntime.Core.BinarySearch
import ArtRuntime.Utf.ModifiedUtf8
import ArtRuntime.Dex.Find
import ArtRuntime.Dex.StringData
import ArtRuntime.Gc.CardScan
import ArtRuntime.Core.FloatOrder
import ArtRuntime.Interpreter.FloatToInt
import ArtRuntime.Compiler.Dominators
import ArtRuntime.Gc.SpaceBitmap
import ArtRuntime.Gc.AtomicTestAndSet
import ArtRuntime.Gc.AtomicStack
import ArtRuntime.Gc.ServerAtomicStack
import ArtRuntime.Interpreter.Switch
import ArtRuntime.Dex.CodeItem
import ArtRuntime.Dex.DebugInfo
import ArtRuntime.Core.Links
import ArtRuntime.Gc.ReferenceQueue
import ArtRuntime.Core.Ring
import ArtRuntime.Gc.HandShake
import ArtRuntime.Compiler.VmapTable
import ArtRuntime.Compiler.Promotion
import ArtRuntime.Core.BitField
import ArtRuntime.Compiler.ArmImmediate
import ArtRuntime.Core.PackedBits
import ArtRuntime.Compiler.ArenaBitVector
import ArtRuntime.Thread.ThreadList
import ArtRuntime.ClassLinker.LinkVirtualMethods
import ArtRuntime.Verifier.RegisterLine
import ArtRuntime.Dex.NameGrammar
import ArtRuntime.Dex.Names
import ArtRuntime.Compiler.ArmAssembler
import ArtRuntime.Compiler.ArmPass
import ArtRuntime.Compiler.ArmBranch
import ArtRuntime.Compiler.ArmData
import ArtRuntime.Compiler.ArmLiteral
