/-
# Creations that fail

When `dir_add` refuses the name, because it exists, is too long, or the directory is full, the
sectors that `inode_create` took stay marked and belong to no file.
-/

import Pintos.Filesys.Session

namespace Pintos.Filesys

open Base FileSys

namespace FileSys

section Trace

variable {P : Places} {s s' : FileSys} {owned : Owned} {held : List ℕ} {name : CString} {size : ℤ}

end Trace

end FileSys

end Pintos.Filesys
