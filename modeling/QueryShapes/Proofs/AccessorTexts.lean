import QueryShapes.Proofs.ObjectLiteral

namespace QueryShapes

namespace ClientLibrary

variable {lib : ClientLibrary}

end ClientLibrary

namespace Descriptor

variable {lib : ClientLibrary} {d : Descriptor} {content text : String}

end Descriptor
end QueryShapes
