import XExpr.Lib.Prog
import XExpr.Heap.Exact
import XExpr.Heap.Pass
import XExpr.Heap.Nested
import XExpr.Heap.Environment
import XExpr.Heap.Filter
import XExpr.Heap.MarkSet
import XExpr.Heap.Teardown
import XExpr.Heap.Count
import XExpr.Heap.HookAllocs
import XExpr.Heap.Ceiling
import XExpr.Heap.Blocks
import XExpr.Heap.Transparent
import XExpr.Heap.Recovery
import XExpr.Heap.Ownership
import XExpr.Heap.MarkLog
import XExpr.Introspect.Name
import XExpr.Obj.BlockSize
import XExpr.Base.Failure
import XExpr.Base.Builds
import XExpr.Str.RoundTrip
import XExpr.Str.Strtol
import XExpr.Str.Stdlib
import XExpr.Str.Memory
import XExpr.Str.Numbers
import XExpr.Io.Read
import XExpr.Io.Output
import XExpr.Io.ReadChar
