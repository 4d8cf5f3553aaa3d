/-
**What the renderer allocates.**

The textures, buffers and meshes of `types.h`, and the resources that the device destroys one by one.
Handles are numbers; resources of different kinds are different whatever their handles.
-/

import Mathlib.Tactic.Common

namespace Vaudou

/-- `VD(Texture)`: an image, its view, and the memory behind it. -/
structure Texture where
  image : Nat
  view : Nat
  allocation : Nat
deriving DecidableEq, Repr

/-- `VD(Buffer)`. -/
structure Buffer where
  buffer : Nat
  allocation : Nat
deriving DecidableEq, Repr

/-- `VD_R_GPUMesh`. -/
structure GPUMesh where
  vertex : Buffer
  index : Buffer
  vertex_buffer_address : Nat
  num_vertices : Nat
  num_indices : Nat
deriving DecidableEq, Repr

/-- A resource, by the call that destroys it. -/
inductive GPUResource where
  /-- `vkDestroyImageView` -/
  | imageView (view : Nat)
  /-- `svma_free_texture` -/
  | texture (image allocation : Nat)
  /-- `svma_free_buffer` -/
  | buffer (buffer allocation : Nat)
  /-- `vkDestroyPipelineLayout` -/
  | pipelineLayout (layout : Nat)
  /-- `vkDestroyPipeline` -/
  | pipeline (pipeline : Nat)
  /-- `vkDestroyImage` -/
  | image (image : Nat)
  /-- `vkDestroySwapchainKHR` -/
  | swapchain (swapchain : Nat)
  /-- `vkDestroySurfaceKHR` -/
  | surface (surface : Nat)
deriving DecidableEq, Repr

/-- `vd_renderer_destroy_texture`: the view, then the image with its memory. -/
def rendererDestroyTexture (image : Texture) : List GPUResource :=
  [.imageView image.view, .texture image.image image.allocation]

/-- `vd_renderer_destroy_buffer`. -/
def rendererDestroyBuffer (buffer : Buffer) : List GPUResource :=
  [.buffer buffer.buffer buffer.allocation]

end Vaudou
