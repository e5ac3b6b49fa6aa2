/-!
# The release
-/
namespace ProcessMemory

def version : String := "0.1.0"

def authors : String := "memwalk Contributors"

end ProcessMemory
