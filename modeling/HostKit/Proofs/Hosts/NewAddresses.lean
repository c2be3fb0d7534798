import HostKit.Proofs.Hosts.Links
import HostKit.Proofs.Hosts.Rewrites

/-!
# An address that is new

Where a text has no entry for an address, adding one and replacing none by one lead to the same
text on different ways: an addition writes at the end of the file, and a replacement moves a new
file over it. The new file takes over the permission bits of the old one, so both ways end alike.
If there is no old one, it keeps those of a temporary file, which only its owner may read, where an
addition makes a file that all may read whom the setting does not keep from it.
-/

namespace HostKit

namespace Files

end Files

namespace HostsFile

end HostsFile

namespace HostRegistry

open HostKit.Action Files HostsFile
open Text (lines segments unlines closed HasReturn)

variable {registry : HostRegistry} {machine : Machine} {l k : Location}
variable {ip hostname : Text} {text? : Option Text} {entry : HostEntry}

end HostRegistry
end HostKit
