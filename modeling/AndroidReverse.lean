import AndroidReverse.ArmMachine
import AndroidReverse.ArmDecode
import AndroidReverse.ArmRun
import AndroidReverse.ArmBlocks
import AndroidReverse.Relocate
import AndroidReverse.RelocateArm
import AndroidReverse.RelocateThumb16
import AndroidReverse.RelocateThumb32
import AndroidReverse.RelocateTable
import AndroidReverse.RelocateAdd
import AndroidReverse.ArmItBlock
import AndroidReverse.RelocateVerbatim
import AndroidReverse.Patching
import AndroidReverse.InlineHook
import AndroidReverse.SlotArray
import AndroidReverse.InlineHookSteps
import AndroidReverse.InlineHookRuns
import AndroidReverse.InlineHookBoundaries
import AndroidReverse.InlineHookFlush
import AndroidReverse.ResidueRing
import AndroidReverse.Gf256
import AndroidReverse.Fips197
import AndroidReverse.Aes
import AndroidReverse.AesCipher
import AndroidReverse.ByteBuffer
import AndroidReverse.Base64
import AndroidReverse.Base64Code
import AndroidReverse.AesPadding
import AndroidReverse.ByteMemory
import AndroidReverse.ChainTable
import AndroidReverse.ElfImage
import AndroidReverse.ElfModule
import AndroidReverse.ElfDynamic
import AndroidReverse.ElfSymbols
import AndroidReverse.Interpose
import AndroidReverse.ElfHook
import AndroidReverse.ElfHookRela
import AndroidReverse.HookZzInsn
import AndroidReverse.HookZzWriter
import AndroidReverse.HookZzRelocator
import AndroidReverse.HookZzBlocks
import AndroidReverse.HookZzTargets
import AndroidReverse.HookZzCode
import AndroidReverse.HookZzArmBranch
import AndroidReverse.HookZzGuard
import AndroidReverse.HookZzEffect
import AndroidReverse.HookZzData
import AndroidReverse.HookZzPrologue
import AndroidReverse.HookZzRedirect
import AndroidReverse.HookZzTrampoline
import AndroidReverse.HookZzInvoke
import AndroidReverse.HookZzInterceptor
import AndroidReverse.GrowableStack
import AndroidReverse.HookZzStack
import AndroidReverse.ArmFrame
import AndroidReverse.HookZzThunk
import AndroidReverse.HookZzThunkRun
import AndroidReverse.HookZzInstall
import AndroidReverse.HookZzPrepare
import AndroidReverse.HookZzRegistry
import AndroidReverse.Carving
import AndroidReverse.HookZzAllocator
import AndroidReverse.HookZzNearSlice
import AndroidReverse.ExportHook
import AndroidReverse.StatePart
import AndroidReverse.CheckedRead
import AndroidReverse.ExportSymbols
import AndroidReverse.ExportSymbolsSafe
import AndroidReverse.PatternTable
import AndroidReverse.RelocateClassify
import AndroidReverse.ThumbStream
import AndroidReverse.RelocateLayout
import AndroidReverse.InlineHookResume
import AndroidReverse.InlineHookTables
import AndroidReverse.TablePair
import AndroidReverse.InlineHookThreads
import AndroidReverse.InlineHookUnHookAll
import AndroidReverse.InlineHookRegister
import AndroidReverse.AesPkcs5
import AndroidReverse.Base64Prefix
import AndroidReverse.AesDecryptBounds
import AndroidReverse.ThumbFlow
import AndroidReverse.RelocateShapes
import AndroidReverse.TrampolineFlow
import AndroidReverse.ElfHashWalk
import AndroidReverse.ElfDynamicBounds
import AndroidReverse.ElfHookFailure
import AndroidReverse.ElfHooker
import AndroidReverse.HookZzStorage
import AndroidReverse.ByteOutput
import AndroidReverse.HookZzBookkeeping
import AndroidReverse.HookZzEncoders
import AndroidReverse.HookZzLiteral
import AndroidReverse.Numerals
import AndroidReverse.TextTable
import AndroidReverse.MapsText
import AndroidReverse.ElfModuleMap
import AndroidReverse.RemoteCall
import AndroidReverse.Injection
import AndroidReverse.RemoteAddress
import AndroidReverse.HookZzArm64Reach
import AndroidReverse.ExportHookJump
import AndroidReverse.ExportHookCopy
import AndroidReverse.AndHook
import AndroidReverse.Coalescing
import AndroidReverse.MemMaps
import AndroidReverse.RemoteTransfer
import AndroidReverse.SectionTable
import AndroidReverse.HookAll
import AndroidReverse.GotHook
import AndroidReverse.DalvikParamTypes
import AndroidReverse.DalvikArgInfo
import AndroidReverse.ExecutableAddr
import AndroidReverse.DalvikBoxArgs
import AndroidReverse.WriteBack
import AndroidReverse.AddressSpace
import AndroidReverse.HookZzPatch
import AndroidReverse.InlineHookFreeze
import AndroidReverse.A64Isa
import AndroidReverse.A64Frame
import AndroidReverse.HookZzArm64Thunk
import AndroidReverse.HookZzArm64ThunkRun
import AndroidReverse.LiteralPool
import AndroidReverse.HookZzArm64Invoke
import AndroidReverse.HookZzArm64InvokeRun
import AndroidReverse.HookZzArm64Call
