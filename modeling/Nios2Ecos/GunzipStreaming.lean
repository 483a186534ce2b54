import Nios2Ecos.FirmwareUpgrade

/- What inflate is given over a whole run of gunzip_firmware, whatever the reads return and
   whatever inflate does with it. -/
namespace GunzipStreaming
open NorFlash InflateStream FirmwareUtil GunzipFirmware FirmwareUpgrade

section
variable (env : Env) (z : Inflater bufferSize)

end

section
variable {env : Env} {z : Inflater bufferSize} {upload : Option (List UInt8)} {flash : Content}
  {body : List UInt8} {s : Gunzip}

end

def pieces : Env := { smoothEnv smallFlash with readUpload := fun _ => some 3 }

end GunzipStreaming
