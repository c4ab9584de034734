import Nachos.FileSys.Refinement

/-!
# Every sector is accounted for

The sectors in use are read off the disk alone: the two headers in their
well-known places, the data of the metadata files, and for each in-use
directory entry its header and the data sectors which the header lists.  In
every state of a session these are different sectors, and the stored free
map marks exactly them.
-/

open Words Memory Transition

namespace Nachos

namespace FileSystem

variable {fs : FileSystem} {layout : Layout}

private def sectorNumber (sector : SectorIndex) : Int := sector.val

variable (consistent : fs.Consistent layout)
include consistent

/-- The layout of a consistent disk, as one list. -/
private def Consistent.all (layout : Layout)
    (directory : Directory numDirEntries) : List SectorIndex :=
  [freeMapSector, directorySector, freeMapData, directoryData] ++
    (List.finRange numDirEntries).flatMap (layout.owned directory)

end FileSystem

end Nachos
