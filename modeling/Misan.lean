import Misan.Foundation.Probing
import Misan.Foundation.Slots
import Misan.Foundation.Copying
import Misan.Foundation.Decoding
import Misan.Foundation.Refinement
import Misan.Foundation.Locking
import Misan.Foundation.Printing
import Misan.Foundation.Footprints
import Misan.Asan
import Misan.Proof.AsanShadow
import Misan.Proof.AsanCheck
import Misan.Proof.AsanGlobals
import Misan.Proof.AsanRegions
import Misan.Proof.AsanWindow
import Misan.Proof.AsanFillers
import Misan.Proof.AsanQuery
import Misan.Proof.AsanCopies
import Misan.Proof.AsanRefinement
import Misan.AsanShared
import Misan.Proof.AsanErrors
import Misan.Proof.AsanShared
import Misan.Proof.AsanOutput
import Misan.AsanInit
import Misan.Proof.AsanInit
import Misan.AsanFakeStack
import Misan.Proof.AsanFakeStack
import Misan.Proof.AsanNoReturn
import Misan.Msan
import Misan.Proof.MsanLayout
import Misan.MsanCheck
import Misan.Proof.MsanHistory
import Misan.MsanOrigins
import Misan.Proof.MsanChain
import Misan.Proof.MsanOriginIds
import Misan.MsanIndices
import Misan.Proof.MsanIndices
import Misan.Proof.MsanOriginStacks
import Misan.Lsan
import Misan.LsanOutput
import Misan.LsanHistory
import Misan.Proof.LsanReports
import Misan.Proof.LsanOutput
import Misan.Proof.LsanGarbage
import Misan.Proof.LsanChains
import Misan.Proof.LsanTable
import Misan.Proof.LsanRoots
import Misan.Proof.LsanIgnore
import Misan.Proof.LsanDisable
import Misan.LsanThreads
import Misan.Proof.LsanSections
import Misan.Proof.LsanThreads
import Misan.Printf
import Misan.Report
import Misan.Proof.PrintfNumbers
import Misan.Proof.PrintfDirectives
import Misan.Proof.PrintfParts
import Misan.Proof.PrintfScanning
import Misan.Proof.PrintfNumerals
import Misan.Proof.PrintfAppend
import Misan.PrintfMachine
import Misan.Proof.PrintfMachine
import Misan.Proof.PrintfAgreement
import Misan.Proof.PrintfBounds
import Misan.Proof.PrintfOverflow
import Misan.Proof.Reports
import Misan.Proof.ReportFields
import Misan.StackCapture
import Misan.Proof.StackCapture
import Misan.Bump
import Misan.Proof.BumpBlocks
import Misan.Proof.BumpReset
import Misan.Cfi
import Misan.Proof.CfiTable
import Misan.Proof.CfiCapacity
import Misan.Ubsan
import Misan.Proof.UbsanReports
import Misan.Proof.UbsanHandlers
import Misan.UbsanThreads
import Misan.Proof.UbsanThreads
import Misan.Tsan
import Misan.TsanHistory
import Misan.TsanHooks
import Misan.Proof.TsanStep
import Misan.Proof.TsanThreads
import Misan.Proof.TsanClocks
import Misan.Proof.TsanDiscipline
import Misan.Proof.TsanHappensBefore
import Misan.Proof.TsanShadowTable
import Misan.Proof.TsanReports
import Misan.Proof.TsanOwnership
import Misan.Proof.TsanVerdict
import Misan.Proof.TsanRelease
import Misan.Proof.TsanMutexTable
import Misan.Proof.TsanShadowGet
import Misan.Proof.TsanReaders
import Misan.Proof.TsanRanges
import Misan.Proof.TsanAtomics
import Misan.Proof.TsanRegistration
import Misan.TsanLocking
import Misan.Proof.TsanSections
import Misan.Proof.TsanLocking
