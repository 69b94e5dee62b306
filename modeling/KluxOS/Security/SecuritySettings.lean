import KluxOS.Kernel.Types

namespace KluxOS.Security

structure SecuritySettings where
  security_level : Uint8
  enable_audit : Uint8
  enable_firewall : Uint8
  enable_access_control : Uint8
  enable_encryption : Uint8
deriving DecidableEq

-- security_config as it is initialised
def securityConfig : SecuritySettings := ⟨2#8,1#8,1#8,1#8,1#8⟩

end KluxOS.Security
